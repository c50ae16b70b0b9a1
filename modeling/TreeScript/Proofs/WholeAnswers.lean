import Mathlib
import TreeScript.Proofs.JsonInProse

/-!
# Answers that are JSON

A model that is asked for JSON may answer with nothing else. The answer is searched for a list or a
map before it is read as a whole, and the search for the first bracket does not know of strings. So
an answer that is a JSON string is converted to a list or a map if it holds one (`Model.Holds`),
while an answer of any other kind is converted to its own value (`Model.coerce_whole_json`).

What a text holds is said without the bracket scan, by the reader of JSON alone. That the scan finds
it (`Model.holds_iff`) rests on what the reader has read being brackets around what the scan passes
over, and on the scan finding a part of the text that starts with its first bracket.
-/

namespace TreeScript

namespace Model

/-! ## What the bracket scan finds -/

/-- A step of the bracket scan takes one character, and is the last one or is followed by others. -/
theorem balancedFrom_cons {expected rest found : List Char} {quoting : Quoting} {c : Char}
    (h : balancedFrom expected quoting (c :: rest) = some found) :
    found = [c] ∨ ∃ expected' quoting' found',
      balancedFrom expected' quoting' rest = some found' ∧ found = c :: found' := by
  have hstep {expected' : List Char} {quoting' : Quoting}
      (h : (balancedFrom expected' quoting' rest).map (c :: ·) = some found) :
      found = [c] ∨ ∃ expected' quoting' found',
        balancedFrom expected' quoting' rest = some found' ∧ found = c :: found' := by
    obtain ⟨found', hfound, heq⟩ := Option.map_eq_some_iff.1 h
    exact .inr ⟨expected', quoting', found', hfound, heq.symm⟩
  cases quoting with
  | escaped => exact hstep h
  | inside => exact hstep h
  | outside =>
    rw [balancedFrom.eq_def] at h
    dsimp only at h
    split at h
    · exact hstep h
    · split at h
      · exact hstep h
      · split at h
        · split at h
          · cases h
          · split at h
            · cases h
            · split at h
              · cases h
                exact .inl rfl
              · exact hstep h
        · exact hstep h

/-- The bracket scan finds a part of the text that starts where it starts. -/
theorem balancedFrom_eq_some {expected cs found : List Char} {quoting : Quoting}
    (h : balancedFrom expected quoting cs = some found) :
    ∃ rest, cs = found ++ rest ∧ found.head? = cs.head? := by
  induction cs generalizing expected quoting found with
  | nil =>
    rw [balancedFrom] at h
    cases h
  | cons c cs ih =>
    rcases balancedFrom_cons h with rfl | ⟨expected', quoting', found', hfound, rfl⟩
    · exact ⟨cs, rfl, rfl⟩
    · obtain ⟨rest, rfl, -⟩ := ih hfound
      exact ⟨rest, rfl, rfl⟩

theorem firstBalanced?_eq_some {text found : String} (h : firstBalanced? text = some found) :
    ∃ before after, text = before ++ found ++ after ∧ before.toList.any isOpening = false ∧
      found.toList.head?.any isOpening = true := by
  rw [firstBalanced?] at h
  obtain ⟨cs, hcs, rfl⟩ := Option.map_eq_some_iff.1 h
  obtain ⟨rest, hsplit, hhead⟩ := balancedFrom_eq_some hcs
  refine ⟨String.ofList (text.toList.takeWhile fun c => !isOpening c), String.ofList rest, ?_, ?_,
    ?_⟩
  · rw [← String.toList_inj, String.toList_append, String.toList_append, String.toList_ofList,
      String.toList_ofList, String.toList_ofList, List.append_assoc, ← hsplit,
      List.takeWhile_append_dropWhile]
  · rw [String.toList_ofList, List.any_eq_false]
    intro c hc
    simpa using List.mem_takeWhile_imp hc
  · rw [String.toList_ofList, hhead]
    cases hdrop : text.toList.dropWhile fun c => !isOpening c with
    | nil =>
      rw [hdrop, balancedFrom] at hcs
      cases hcs
    | cons c cs' =>
      have := List.head?_dropWhile_not (fun c => !isOpening c) text.toList
      rw [hdrop] at this
      simpa using this

/-! ## Collections in a text -/

/-- A text holds a list or a map: the JSON text of it, with space around it, is a part of the text
that has no opening bracket before it. -/
def Holds (text : String) (w : Value) : Prop :=
  w.isContainer = true ∧ ∃ before inner after, text = before ++ inner ++ after ∧
    before.toList.any isOpening = false ∧ Json.read? inner = some w

theorem any_isOpening_space {cs : List Char} (h : ∀ c ∈ cs, Json.isSpace c = true) :
    cs.any isOpening = false := by
  rw [List.any_eq_false]
  intro c hc
  have hspace := h c hc
  simp only [Json.isSpace, Bool.or_eq_true, beq_iff_eq] at hspace
  rcases hspace with ((rfl | rfl) | rfl) | rfl <;> decide

/-- The JSON text of a list or a map is between brackets. -/
theorem exists_brackets {text : String} {w : Value} (hw : w.isContainer = true)
    (h : Json.read? text = some w) :
    ∃ before inner after, text = before ++ inner ++ after ∧ before.toList.any isOpening = false ∧
      Json.read? inner = some w ∧ ∃ c cs, isOpening c = true ∧
        inner.toList = c :: (cs ++ [closingOf c]) ∧ Passed cs := by
  obtain ⟨before, inner, after, htext, houtline, hread, hbefore, -⟩ :=
    Json.exists_outline_of_read? h
  refine ⟨String.ofList before, String.ofList inner, String.ofList after, ?_, ?_, hread, ?_⟩
  · rw [← String.toList_inj, String.toList_append, String.toList_append, String.toList_ofList,
      String.toList_ofList, String.toList_ofList, List.append_assoc, htext]
  · rw [String.toList_ofList]
    exact any_isOpening_space hbefore
  · rw [String.toList_ofList]
    exact houtline.exists_brackets hw

/-- The bracket scan finds the JSON text of what a text holds. -/
theorem Holds.exists_firstBalanced? {text : String} {w : Value} (h : Holds text w) :
    ∃ found, firstBalanced? text = some found ∧ Json.read? found = some w := by
  obtain ⟨hw, before, inner, after, rfl, hbefore, hread⟩ := h
  obtain ⟨before', inner', after', rfl, hbefore', hread', c, cs, hc, hinner', hcs⟩ :=
    exists_brackets hw hread
  refine ⟨inner', ?_, hread'⟩
  have hno : (before ++ before').toList.any isOpening = false := by
    rw [String.toList_append, List.any_append, hbefore, hbefore']
    rfl
  have hshape : before ++ (before' ++ inner' ++ after') ++ after =
      before ++ before' ++ inner' ++ (after' ++ after) := by
    simp only [String.append_assoc]
  rw [hshape]
  exact firstBalanced?_bracketed hc hinner' hcs hno _

theorem any_isOpening_of_head? {cs : List Char} (h : cs.head?.any isOpening = true) :
    cs.any isOpening = true := by
  cases cs with
  | nil => cases h
  | cons c cs =>
    rw [List.head?_cons, Option.any_some] at h
    rw [List.any_cons, h, Bool.true_or]

/-- A word has no brackets. -/
theorem any_isOpening_word {text : String} {v : Value} (h : Json.read? text = some v)
    (hv : v.isWord = true) : text.toList.any isOpening = false := by
  obtain ⟨before, inner, after, htext, houtline, -, hbefore, hafter⟩ :=
    Json.exists_outline_of_read? h
  have hinner : inner.any isOpening = false := by
    cases houtline with
    | word hidle _ =>
      rw [List.any_eq_false]
      intro c hc hopening
      have hc' := List.all_eq_true.1 hidle c hc
      simp [isIdle, hopening] at hc'
    | quoted hbody s => cases hv
    | bracketed hc hcs hcontainer =>
      cases v with
      | list | map => cases hv
      | _ => cases hcontainer
  rw [htext, List.any_append, List.any_append, any_isOpening_space hbefore, hinner,
    any_isOpening_space hafter]
  rfl

/-- JSON that starts with an opening bracket is a list or a map. -/
theorem isContainer_of_read? {text : String} {w : Value} (h : Json.read? text = some w)
    (hopening : text.toList.head?.any isOpening = true) : w.isContainer = true := by
  obtain ⟨before, inner, after, htext, houtline, -, hbefore, -⟩ := Json.exists_outline_of_read? h
  cases houtline with
  | word hidle hv =>
    have hany := any_isOpening_of_head? hopening
    rw [any_isOpening_word h hv] at hany
    cases hany
  | quoted hbody s =>
    cases before with
    | nil =>
      rw [htext] at hopening
      cases hopening
    | cons c before =>
      have hspace := any_isOpening_space hbefore
      rw [htext, List.cons_append, List.head?_cons, Option.any_some] at hopening
      simp [hopening] at hspace
  | bracketed hc hcs hv => exact hv

theorem holds_iff {text : String} {w : Value} :
    Holds text w ↔ (firstBalanced? text).bind Json.read? = some w := by
  constructor
  · intro h
    obtain ⟨found, hfound, hread⟩ := h.exists_firstBalanced?
    rw [hfound, Option.bind_some, hread]
  · intro h
    obtain ⟨found, hfound, hread⟩ := Option.bind_eq_some_iff.1 h
    obtain ⟨before, after, htext, hbefore, hopening⟩ := firstBalanced?_eq_some hfound
    exact ⟨isContainer_of_read? hread hopening, before, found, after, htext, hbefore, hread⟩

/-- A text that is the JSON text of a list or a map holds it. -/
theorem holds_self {text : String} {v : Value} (h : Json.read? text = some v)
    (hv : v.isContainer = true) : Holds text v :=
  ⟨hv, "", text, "", by simp, rfl, h⟩

/-- A text that is a word of JSON holds nothing. -/
theorem not_holds_word {text : String} {v w : Value} (h : Json.read? text = some v)
    (hv : v.isWord = true) : ¬Holds text w := by
  intro hholds
  obtain ⟨found, hfound, -⟩ := hholds.exists_firstBalanced?
  obtain ⟨before, after, rfl, -, hopening⟩ := firstBalanced?_eq_some hfound
  have hnone := any_isOpening_word h hv
  rw [String.toList_append, String.toList_append, List.any_append, List.any_append,
    any_isOpening_of_head? hopening, Bool.or_true] at hnone
  cases hnone

theorem coerceJson_of_holds {text : String} {w : Value} (h : Holds text w) :
    coerceJson text = w := by
  rw [coerceJson, holds_iff.1 h]

theorem coerceJson_of_not_holds {text : String} {v : Value} (h : Json.read? text = some v)
    (hnone : ∀ w, ¬Holds text w) : coerceJson text = v := by
  have hscan : (firstBalanced? text).bind Json.read? = none := by
    cases hscan : (firstBalanced? text).bind Json.read? with
    | none => rfl
    | some w => exact absurd (holds_iff.2 hscan) (hnone w)
  rw [coerceJson, hscan, h]
  rfl

/-- Let a text be JSON as a whole, and let JSON be expected. Then it is converted to its own value,
of whatever kind, with one exception: a JSON string that holds a list or a map is converted to what
it holds, as any other text is. -/
theorem coerce_whole_json {text : String} {v : Value} (h : Json.read? text = some v) :
    (coerce (.ofValue (.str "json")) (.str text) = .ok v ↔ ∀ s w, v = .str s → ¬Holds text w) ∧
      ∀ w, Holds text w → coerce (.ofValue (.str "json")) (.str text) = .ok w := by
  have hcoerce : coerce (.ofValue (.str "json")) (.str text) = .ok (coerceJson text) := rfl
  have hholds (w : Value) (hw : Holds text w) :
      coerce (.ofValue (.str "json")) (.str text) = .ok w := by
    rw [hcoerce, coerceJson_of_holds hw]
  refine ⟨⟨?_, ?_⟩, hholds⟩
  · rintro hown s w rfl hw
    rw [hholds w hw] at hown
    cases hown
    cases hw.1
  · intro hnone
    obtain ⟨before, inner, after, -, houtline, -⟩ := Json.exists_outline_of_read? h
    cases houtline with
    | word hidle hv =>
      rw [hcoerce, coerceJson_of_not_holds h fun w => not_holds_word h hv]
    | quoted hbody s =>
      rw [hcoerce, coerceJson_of_not_holds h fun w => hnone s w rfl]
    | bracketed hc hcs hv => exact hholds v (holds_self h hv)

/-- A string that holds a list is converted to the list, and one that holds only brackets is
converted to itself. -/
theorem coerce_whole_json_strings :
    Json.read? "\"[1]\"" = some (.str "[1]") ∧ Holds "\"[1]\"" (.list [.int 1]) ∧
    coerce (.ofValue (.str "json")) (.str "\"[1]\"") = .ok (.list [.int 1]) ∧
    coerce (.ofValue (.str "json")) (.str "\"[1]\"") ≠ .ok (.str "[1]") ∧
    Json.read? "\"a [b] c\"" = some (.str "a [b] c") ∧
    coerce (.ofValue (.str "json")) (.str "\"a [b] c\"") = .ok (.str "a [b] c") := by
  have hread : Json.read? "\"[1]\"" = some (.str "[1]") := by cbv
  have hlist : Json.read? "[1]" = some (.list [.int 1]) := by cbv
  have hholds : Holds "\"[1]\"" (.list [.int 1]) :=
    ⟨rfl, "\"", "[1]", "\"", by decide, by decide, hlist⟩
  have hread' : Json.read? "\"a [b] c\"" = some (.str "a [b] c") := by cbv
  have hnone (s : String) (w : Value) : Value.str "a [b] c" = .str s → ¬Holds "\"a [b] c\"" w := by
    intro _ hw
    have hscan : (firstBalanced? "\"a [b] c\"").bind Json.read? = none := by cbv
    rw [holds_iff, hscan] at hw
    cases hw
  refine ⟨hread, hholds, (coerce_whole_json hread).2 _ hholds, fun hown => ?_, hread',
    (coerce_whole_json hread').1.2 hnone⟩
  exact (coerce_whole_json hread).1.1 hown _ _ rfl hholds

end Model

end TreeScript
