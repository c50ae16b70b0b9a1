import TreeScript.Proofs.JsonReading

/-!
# How deep a JSON text is

The depth of a text can be read off its brackets: it is the number of those that are open at once
outside of quotes (`Json.nesting`). A text that is JSON has a derivation of that depth
(`Json.exists_text_of_read?`), which is what a reader with a bounded stack has to be told.
-/

namespace TreeScript.Json

open FlowStyle (Parts Bracketed)

/-- The largest number of brackets that are open at once, from a place on that is inside or outside
of quotes, with some of them open there. -/
def nestingFrom : Bool → Nat → List Char → Nat
  | _, level, [] => level
  | true, level, '\\' :: _ :: rest => nestingFrom true level rest
  | true, level, '"' :: rest => nestingFrom false level rest
  | true, level, _ :: rest => nestingFrom true level rest
  | false, level, c :: rest =>
    if c == '"' then nestingFrom true level rest
    else if c == '[' || c == '\x7b' then nestingFrom false (level + 1) rest
    else if c == ']' || c == '\x7d' then max level (nestingFrom false (level - 1) rest)
    else nestingFrom false level rest

/-- The largest number of brackets that are open at once in a text. -/
def nesting (text : String) : Nat := nestingFrom false 0 text.toList

example : nesting "[[1, \"[[[\"], \x7b\"a\": [2]\x7d]" = 3 := by decide +kernel

theorem le_nestingFrom (inside : Bool) (level : Nat) (cs : List Char) :
    level ≤ nestingFrom inside level cs := by
  fun_induction nestingFrom inside level cs <;> omega

/-! ## Texts outside of quotes -/

/-- The brackets of a text are closed in it, and no more than so many are open at once. -/
def Nests (text : List Char) (k : Nat) : Prop :=
  ∀ level rest, nestingFrom false level (text ++ rest) =
    max (level + k) (nestingFrom false level rest)

/-- Whether a character is neither a quote nor a bracket. -/
def isLevel (c : Char) : Bool := !(['"', '[', ']', '\x7b', '\x7d'].contains c)

namespace Nests

theorem nil : Nests [] 0 := by
  intro level rest
  have := le_nestingFrom false level rest
  rw [List.nil_append]
  omega

theorem append {text others : List Char} {j k : Nat} (h : Nests text j) (hothers : Nests others k) :
    Nests (text ++ others) (max j k) := by
  intro level rest
  rw [List.append_assoc, h, hothers]
  omega

theorem cons {c : Char} {text : List Char} {k : Nat} (hc : isLevel c = true) (h : Nests text k) :
    Nests (c :: text) k := by
  intro level rest
  simp only [isLevel, List.contains_cons, List.contains_nil, Bool.or_false, Bool.not_eq_true',
    Bool.or_eq_false_iff] at hc
  rw [List.cons_append, nestingFrom, hc.1, hc.2.1, hc.2.2.1, hc.2.2.2.1, hc.2.2.2.2]
  exact h level rest

theorem of_all {text : List Char} (h : text.all isLevel = true) : Nests text 0 := by
  induction text with
  | nil => exact .nil
  | cons c text ih =>
    rw [List.all_cons, Bool.and_eq_true] at h
    exact .cons h.1 (ih h.2)

theorem gap {gap : List Char} (h : gap.all isSpace = true) : Nests gap 0 := by
  refine of_all (List.all_eq_true.2 fun c hc => ?_)
  have hspace := List.all_eq_true.1 h c hc
  simp only [isSpace, Bool.or_eq_true, beq_iff_eq] at hspace
  rcases hspace with ((rfl | rfl) | rfl) | rfl <;> rfl

/-- One more bracket is open inside. -/
theorem bracketed {opening closing : Char} {inner : List Char} {k : Nat}
    (hbrackets : (opening, closing) ∈ [('[', ']'), ('\x7b', '\x7d')]) (h : Nests inner k) :
    Nests (opening :: (inner ++ [closing])) (k + 1) := by
  intro level rest
  have hopen : nestingFrom false level (opening :: (inner ++ closing :: rest)) =
      nestingFrom false (level + 1) (inner ++ closing :: rest) := by
    simp only [List.mem_cons, Prod.mk.injEq, List.not_mem_nil, or_false] at hbrackets
    rcases hbrackets with ⟨rfl, rfl⟩ | ⟨rfl, rfl⟩ <;> rfl
  have hclose : nestingFrom false (level + 1) (closing :: rest) =
      max (level + 1) (nestingFrom false level rest) := by
    simp only [List.mem_cons, Prod.mk.injEq, List.not_mem_nil, or_false] at hbrackets
    rcases hbrackets with ⟨rfl, rfl⟩ | ⟨rfl, rfl⟩ <;> rfl
  rw [List.cons_append, List.append_assoc, List.singleton_append, hopen, h, hclose]
  omega

end Nests

/-! ## Words and strings -/

theorem WordText.nests {text : List Char} {v : Value} (h : WordText text v) : Nests text 0 :=
  .of_all (h.all (by decide))

theorem nestingFrom_char {c : Char} (hquote : c ≠ '"') (hslash : c ≠ '\\') (level : Nat)
    (rest : List Char) : nestingFrom true level (c :: rest) = nestingFrom true level rest := by
  rw [nestingFrom]
  · rintro _ _ rfl
    exact absurd rfl hslash
  · rintro rfl
    exact absurd rfl hquote

theorem nestingFrom_digits {digits : List Char} (h : ∀ c ∈ digits, c ≠ '"' ∧ c ≠ '\\') (level : Nat)
    (rest : List Char) :
    nestingFrom true level (digits ++ rest) = nestingFrom true level rest := by
  induction digits with
  | nil => rfl
  | cons c digits ih =>
    obtain ⟨⟨hquote, hslash⟩, hdigits⟩ := List.forall_mem_cons.1 h
    rw [List.cons_append, nestingFrom_char hquote hslash, ih hdigits]

theorem CharsText.nestingFrom {body chars : List Char} (h : CharsText body chars) (level : Nat)
    (rest : List Char) :
    Json.nestingFrom true level (body ++ '"' :: rest) = Json.nestingFrom false level rest := by
  induction h with
  | nil => rfl
  | @unit digits body chars unit hunit hlone h ih =>
    rw [List.cons_append, List.cons_append, Json.nestingFrom, List.append_assoc,
      nestingFrom_digits (Text.ofHex?_inside hunit.code), ih]
  | @pair digits digits' body chars high low hunit hhigh hunit' hlow h ih =>
    rw [List.cons_append, List.cons_append, Json.nestingFrom, List.append_assoc,
      nestingFrom_digits (Text.ofHex?_inside hunit.code), List.cons_append, List.cons_append,
      Json.nestingFrom, List.append_assoc, nestingFrom_digits (Text.ofHex?_inside hunit'.code), ih]
  | escape hescape h ih => rw [List.cons_append, List.cons_append, Json.nestingFrom, ih]
  | char hquote hslash hcontrol h ih =>
    rw [List.cons_append, nestingFrom_char hquote hslash, ih]

theorem CharsText.nests {body chars : List Char} (h : CharsText body chars) :
    Nests ('"' :: (body ++ ['"'])) 0 := by
  intro level rest
  have := le_nestingFrom false level rest
  rw [List.cons_append, List.append_assoc, List.singleton_append]
  show Json.nestingFrom true level (body ++ '"' :: rest) = _
  rw [h.nestingFrom]
  omega

/-! ## Values -/

section

variable {α : Type} {opening closing : Char} {P : List Char → α → Prop}
  {Q : Nat → List Char → α → Prop} {text : List Char} {as : List α}

/-- If each part has a depth, then so have all of them together: that of the deepest. -/
theorem exists_nests_parts (hQ : ∀ {j k text a}, j ≤ k → Q j text a → Q k text a)
    (hP : ∀ {text a}, P text a → ∃ k, Nests text k ∧ Q k text a)
    (h : Parts isSpace closing P text as) :
    ∃ k inner, text = inner ++ [closing] ∧ Nests inner k ∧ Parts isSpace closing (Q k) text as := by
  induction h with
  | @last text gap a h hgap =>
    obtain ⟨k, hk, htext⟩ := hP h
    refine ⟨k, text ++ gap, by simp, ?_, .last htext hgap⟩
    simpa using hk.append (.gap hgap)
  | @more text gap gap' others a as h hgap hgap' hothers ih =>
    obtain ⟨j, hj, htext⟩ := hP h
    obtain ⟨k, inner, rfl, hk, hparts⟩ := ih
    refine ⟨max j k, text ++ (gap ++ ',' :: (gap' ++ inner)), by simp, ?_, ?_⟩
    · have hrest : Nests (gap ++ ',' :: (gap' ++ inner)) k := by
        simpa using (Nests.gap hgap).append (.cons rfl ((Nests.gap hgap').append hk))
      exact hj.append hrest
    · exact .more (hQ (Nat.le_max_left j k) htext) hgap hgap'
        (hparts.imp (hQ (Nat.le_max_right j k)))

theorem exists_nests_bracketed (hQ : ∀ {j k text a}, j ≤ k → Q j text a → Q k text a)
    (hP : ∀ {text a}, P text a → ∃ k, Nests text k ∧ Q k text a)
    (hbrackets : (opening, closing) ∈ [('[', ']'), ('\x7b', '\x7d')])
    (h : Bracketed isSpace opening closing P text as) :
    ∃ k, Nests text (k + 1) ∧ Bracketed isSpace opening closing (Q k) text as := by
  cases h with
  | nil hgap => exact ⟨0, (Nests.gap hgap).bracketed hbrackets, .nil hgap⟩
  | @parts gap inner _ hgap h =>
    obtain ⟨k, inner, rfl, hk, hparts⟩ := exists_nests_parts (Q := Q) hQ hP h
    refine ⟨k, ?_, .parts hgap hparts⟩
    have hinner : Nests (gap ++ inner) k := by
      simpa using (Nests.gap hgap).append hk
    rw [← List.append_assoc]
    exact hinner.bracketed hbrackets

end

theorem exists_nests_entry {P : List Char → Value → Prop} {Q : Nat → List Char → Value → Prop}
    (hP : ∀ {text v}, P text v → ∃ k, Nests text k ∧ Q k text v) {text : List Char}
    {e : Value × Value} (h : style.Entry P text e) :
    ∃ k, Nests text k ∧ style.Entry (Q k) text e := by
  obtain @⟨_, gap', text, _, v, @⟨body, chars, gap, hbody, hgap⟩, hgap', h⟩ := h
  obtain ⟨k, hk, htext⟩ := hP h
  refine ⟨k, ?_, .intro (.intro hbody hgap) hgap' htext⟩
  have hshape : '"' :: (body ++ '"' :: gap) ++ ':' :: (gap' ++ text) =
      '"' :: (body ++ ['"']) ++ (gap ++ ':' :: (gap' ++ text)) := by simp
  have hrest : Nests (gap ++ ':' :: (gap' ++ text)) k := by
    simpa using (Nests.gap hgap).append (.cons rfl ((Nests.gap hgap').append hk))
  rw [hshape]
  simpa using hbody.nests.append hrest

/-- A text has the depth of its brackets. -/
theorem exists_nests {depth : Nat} {text : List Char} {v : Value} (h : style.Text depth text v) :
    ∃ k, Nests text k ∧ style.Text (k + 1) text v := by
  induction depth generalizing text v with
  | zero => cases h
  | succ depth ih =>
    have hmono {j k : Nat} {text : List Char} {v : Value} (hle : j ≤ k)
        (h : style.Text (j + 1) text v) : style.Text (k + 1) text v := h.of_le (by omega)
    cases h with
    | scalar h =>
      have hnests : Nests text 0 := by
        cases h with
        | word h => exact h.nests
        | quoted h => exact h.nests
      exact ⟨0, hnests, .scalar h⟩
    | list h =>
      obtain ⟨k, hk, hlist⟩ := exists_nests_bracketed (Q := fun k => style.Text (k + 1)) hmono ih
        (by simp) h
      exact ⟨k + 1, hk, .list hlist⟩
    | map h =>
      obtain ⟨k, hk, hmap⟩ := exists_nests_bracketed
        (Q := fun k => style.Entry (style.Text (k + 1))) (fun hle h => h.imp (hmono hle))
        (exists_nests_entry (Q := fun k => style.Text (k + 1)) ih) (by simp) h
      exact ⟨k + 1, hk, .map hmap⟩

/-- A text that is JSON has the depth of its brackets. -/
theorem exists_text_of_read? {text : String} {v : Value} (h : read? text = some v) :
    ∃ before inner after, text.toList = before ++ (inner ++ after) ∧ before.all isSpace = true ∧
      style.Text (nesting text + 1) inner v ∧ after.all isSpace = true := by
  obtain ⟨before, inner, after, depth, htext, hbefore, hinner, hafter⟩ := read?_eq_some_iff.1 h
  obtain ⟨k, hk, hdepth⟩ := exists_nests hinner
  refine ⟨before, inner, after, htext, hbefore, hdepth.of_le ?_, hafter⟩
  rw [nesting, htext, Nests.gap hbefore, hk]
  omega

end TreeScript.Json
