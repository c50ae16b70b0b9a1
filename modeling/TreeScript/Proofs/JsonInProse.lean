import TreeScript.Proofs.JsonOutline

/-!
# JSON in the prose of an answer

A model is asked for JSON and answers with prose around it. The bracket scan finds exactly the JSON
text of a list or a map, because it passes over the text of everything inside it
(`Json.outline_of_text`).
-/

namespace TreeScript

namespace Model

/-- The scan finds brackets with what is between them, whatever is before and after them. -/
theorem firstBalanced?_bracketed {text : String} {c : Char} {inner : List Char}
    (hc : isOpening c = true) (htext : text.toList = c :: (inner ++ [closingOf c]))
    (hinner : Passed inner) {before : String}
    (hbefore : before.toList.any isOpening = false) (after : String) :
    firstBalanced? (before ++ text ++ after) = some text := by
  have hskip : (before ++ text ++ after).toList.dropWhile (fun c => !isOpening c) =
      c :: (inner ++ closingOf c :: after.toList) := by
    rw [String.toList_append, String.toList_append, List.append_assoc,
      List.dropWhile_append_of_pos (by simpa using hbefore), htext]
    simp [hc]
  rw [firstBalanced?, hskip, balancedFrom_bracketed hc hinner, ← htext, Option.map_some,
    String.ofList_toList]

/-- Let a list or a map of documents be written as JSON, on one line or indented, and let any text
without an opening bracket stand before it and any text at all after it. If JSON is expected, the
whole is converted to the list or the map. -/
theorem coerce_json_in_prose (yaml : Yaml.Library) {v : Value} (hv : v.isDocument = true)
    (hcontainer : v.isContainer = true) (pretty : Bool) {before : String}
    (hbefore : before.toList.any isOpening = false) (after : String) :
    ∃ text, Document.writeNamed yaml (.str "json") pretty v = .ok text ∧
      coerce (.ofValue (.str "json")) (.str (before ++ text ++ after)) = .ok v := by
  obtain ⟨text, htext, hdenotes⟩ :=
    Json.exists_writeAt (if pretty then .pretty else .compact) v hv 0
  obtain ⟨c, inner, hc, hbrackets, hinner⟩ :=
    hdenotes.outline.exists_brackets hcontainer
  have hfound := firstBalanced?_bracketed hc hbrackets hinner hbefore after
  refine ⟨text, ?_, ?_⟩
  · rw [Document.writeNamed_json, Document.write, Document.built_document hv]
    exact htext
  · show (.ok (coerceJson (before ++ text ++ after)) : Result Value) = .ok v
    rw [coerceJson, hfound, Option.bind_some, hdenotes.read?_eq]

/-- A map with brackets, quotes and backslashes in its texts. -/
def bracketsInTexts : Value :=
  Value.ofFields [("\x7d\"", .list [.str "\\", .str "[\\\"", .int (-3)]), ("]", .map [])]

/-- A closing bracket before the map and brackets of all kinds after it do no harm. -/
theorem coerce_json_in_prose_brackets :
    bracketsInTexts.isDocument = true ∧ bracketsInTexts.isContainer = true ∧
    "Here \"it\" is\x7d: ".toList.any isOpening = false ∧
    ∃ text, Document.writeNamed .bundled (.str "json") true bracketsInTexts = .ok text ∧
      coerce (.ofValue (.str "json"))
        (.str ("Here \"it\" is\x7d: " ++ text ++ " and ]\x7b[ more")) =
        .ok bracketsInTexts := by
  have hdocument : bracketsInTexts.isDocument = true := by decide +kernel
  have hbefore : "Here \"it\" is\x7d: ".toList.any isOpening = false := by decide
  exact ⟨hdocument, rfl, hbefore, coerce_json_in_prose .bundled hdocument rfl true hbefore _⟩

end Model

end TreeScript
