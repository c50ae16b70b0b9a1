import Mathlib
import TreeScript.Document
import TreeScript.Proofs.JsonValues
import TreeScript.Proofs.LowerCase
import TreeScript.Proofs.WireFormat
import TreeScript.Yaml.Bundled

/-!
# Documents as JSON and back

Writing a document as JSON and reading the text gives the document back, on one line or indented,
and whether JSON is asked for or recognised. So does writing a program as JSON, reading the text and
decoding it, for the programs whose trees are documents (`Expr.isDocument`).

Names of arguments are among what makes a tree a document: a name can be a number, but JSON writes
every name as a text.
-/

namespace TreeScript

/-! ## Texts of documents -/

mutual

/-- A document is its own plain form. -/
theorem Value.plain_document : ∀ v : Value, v.isDocument = true → v.plain = .ok v
  | .null, _ => by simp [Value.plain]
  | .bool _, _ => by simp [Value.plain]
  | .int _, _ => by simp [Value.plain]
  | .str _, _ => by simp [Value.plain]
  | .list items, h => by
    rw [Value.isDocument] at h
    rw [Value.plain, plainItems_document items h]
    rfl
  | .map entries, h => by
    rw [Value.isDocument] at h
    rw [Value.plain, plainEntries_document entries h, Result.ok_bind, Bindings.ofPairs_document h]
    rfl
  | .float _, h | .tuple _, h | .env _, h | .object _, h | .set _, h | .bytes _, h | .date _, h
  | .datetime _, h | .undefined, h | .closure .., h | .literal _, h | .node _, h => by
    simp [Value.isDocument] at h
termination_by structural v => v

theorem plainItems_document : ∀ items : List Value, documentItems items = true →
    plainItems items = .ok items
  | [], _ => by rw [plainItems]; rfl
  | v :: rest, h => by
    rw [documentItems, Bool.and_eq_true] at h
    rw [plainItems, Value.plain_document v h.1, plainItems_document rest h.2]
    rfl
termination_by structural items => items

theorem plainEntries_document : ∀ entries : List (Value × Value), documentEntries entries = true →
    plainEntries entries = .ok entries
  | [], _ => by rw [plainEntries]; rfl
  | (.str key, v) :: rest, h => by
    simp only [documentEntries, Bool.and_eq_true] at h
    rw [plainEntries, Value.plain_document v h.1.2, plainEntries_document rest h.2]
    rfl
termination_by structural entries => entries

end

/-- Whether a value is a list or a map, the two kinds whose JSON is told from YAML by its start. -/
def Value.isContainer : Value → Bool
  | .list _ => true
  | .map _ => true
  | _ => false

theorem Json.head?_bracketText (style : Json.Style) (depth : Nat) {left right : String} {c : Char}
    (hleft : left.toList = [c]) (texts : List String) :
    (Json.bracketText style depth left right texts).toList.head? = some c := by
  unfold Json.bracketText
  split <;> simp [String.toList_append, hleft]

theorem Json.head?_writeAt {style : Json.Style} {depth : Nat} {v : Value} {text : String}
    (hv : v.isContainer = true) (h : Json.writeAt style depth v = .ok text) :
    text.toList.head? = some '[' ∨ text.toList.head? = some '\x7b' := by
  cases v with
  | list items =>
    rw [Json.writeAt] at h
    obtain ⟨texts, -, h⟩ := Result.bind_eq_ok.1 h
    cases h
    exact .inl (Json.head?_bracketText style depth rfl texts)
  | map entries =>
    rw [Json.writeAt] at h
    obtain ⟨texts, -, h⟩ := Result.bind_eq_ok.1 h
    cases h
    exact .inr (Json.head?_bracketText style depth rfl texts)
  | _ => cases hv

namespace Document

theorem detect_eq_json {text : String}
    (h : text.toList.head? = some '[' ∨ text.toList.head? = some '\x7b') :
    detect text = some .json := by
  have hblank : Text.isBlank '[' = false ∧ Text.isBlank '\x7b' = false := by
    decide +kernel
  rcases h with h | h
  all_goals
    obtain ⟨cs, htext⟩ := List.head?_eq_some_iff.1 h
    simp [detect, htext, Text.trimStart, Text.trimStartBy, hblank]

theorem ofName?_json : Format.ofName? "json" = some .json := by
  have hlowered : Text.lowered "json" = "json" := Text.lowered_of_isLower (by decide)
  rw [Format.ofName?, hlowered]
  rfl

theorem writeNamed_json (yaml : Yaml.Library) (pretty : Bool) (v : Value) :
    writeNamed yaml (.str "json") pretty v = write yaml .json pretty v := by
  rw [writeNamed, formatName, Result.pure_eq_ok, Result.ok_bind, ofName?_json]

theorem readNamed_json {yaml : Yaml.Library} {text : String} {v : Value}
    (h : Json.Denotes text v) : readNamed yaml (.str "json") text = .ok v := by
  have hformat : (Value.str "json").equal (.str Format.json.name) = true := by
    simp [Value.equal, Format.name]
  simp [readNamed, Value.truth, readAs, hformat, h.read?_eq]

theorem readNamed_null {yaml : Yaml.Library} {text : String} {v : Value}
    (h : Json.Denotes text v) (hdetect : detect text = some .json) :
    readNamed yaml .null text = .ok v := by
  simp [readNamed, Value.truth, read, hdetect, readAs, h.read?_eq]

end Document

/-! ## Trees of programs -/

mutual

/-- Whether JSON tells a program from all others: no list stands in the place of a program, numbers
are integers, and the arguments of an effect have different texts for names and documents for
literals. -/
def Expr.isDocument : Expr → Bool
  | .number (.int _) => true
  | .number (.float _) => false
  | .string _ => true
  | .boolean _ => true
  | .variable _ => true
  | .arithmetic _ operands => documentExprs operands
  | .comparison _ operands => documentExprs operands
  | .conditional condition onTrue onFalse =>
    Expr.isDocument condition && Expr.isDocument onTrue && Expr.isDocument onFalse
  | .procedure _ body => Expr.isDocument body
  | .call callee arguments => Expr.isDocument callee && documentExprs arguments
  | .definition _ value => Expr.isDocument value
  | .effect _ args _ next => documentArgs args && documentNext next
  | .block _ => false
termination_by structural e => e

/-- Whether all programs of a list are documents. -/
def documentExprs : List Expr → Bool
  | [] => true
  | e :: rest => Expr.isDocument e && documentExprs rest
termination_by structural es => es

/-- Whether the arguments of an effect are documents under different texts. -/
def documentArgs : List (Value × Arg) → Bool
  | [] => true
  | (.str key, a) :: rest =>
    !(rest.any fun b => Value.alike (.str key) b.1) && Arg.isDocument a && documentArgs rest
  | _ :: _ => false
termination_by structural as => as

/-- Whether an argument is a document. -/
def Arg.isDocument : Arg → Bool
  | .literal v => v.isDocument
  | .expr e => Expr.isDocument e
termination_by structural a => a

/-- Whether what an effect goes on with is a document. -/
def documentNext : Option Expr → Bool
  | none => true
  | some e => Expr.isDocument e
termination_by structural e => e

end

/-- Fields with different names are the entries of a document if their values are documents. -/
theorem documentEntries_fields {fields : List (String × Value)}
    (hnames : (fields.map Prod.fst).Nodup) (hvalues : ∀ f ∈ fields, f.2.isDocument = true) :
    documentEntries (fields.map fun f => (.str f.1, f.2)) = true := by
  induction fields with
  | nil => rfl
  | cons f rest ih =>
    rw [List.map_cons, List.nodup_cons] at hnames
    have hnew : Bindings.has (rest.map fun f => (.str f.1, f.2)) (.str f.1) = false := by
      rw [Bindings.has_eq_any, List.any_map, List.any_eq_false]
      intro g hg halike
      have hsame : Value.str g.1 = .str f.1 := (Value.alike_str_iff f.1 _).1 halike
      exact hnames.1 (List.mem_map.2 ⟨g, hg, Value.str.inj hsame⟩)
    have hrest := ih hnames.2 fun g hg => hvalues g (List.mem_cons_of_mem f hg)
    simp [documentEntries, hnew, hvalues f List.mem_cons_self, hrest]

theorem isDocument_taggedFields {tag : Tag} {fields : List (String × Value)}
    (hnames : ("type" :: fields.map Prod.fst).Nodup)
    (hvalues : ∀ f ∈ fields, f.2.isDocument = true) :
    (taggedFields tag fields).isDocument = true := by
  rw [taggedFields, Value.ofFields, Value.isDocument]
  refine documentEntries_fields hnames fun f hf => ?_
  rcases List.mem_cons.1 hf with rfl | hf
  · rw [Value.isDocument]
  · exact hvalues f hf

theorem isDocument_variableTree (key : String) : (variableTree key).isDocument = true :=
  isDocument_taggedFields (by simp) (by simp [Value.isDocument])

theorem documentItems_map_str (names : List String) :
    documentItems (names.map .str) = true := by
  induction names with
  | nil => rfl
  | cons name rest ih => simp [documentItems, Value.isDocument, ih]

mutual

/-- The tree of a program that JSON tells from all others is a document. -/
theorem Expr.exists_document : ∀ e : Expr, e.isDocument = true →
    ∃ tree, e.toValue = .ok tree ∧ tree.isDocument = true
  | .number (.int i), _ => by
    refine ⟨_, by rw [Expr.toValue]; rfl, isDocument_taggedFields (by simp) ?_⟩
    simp [Value.isDocument, Number.toValue]
  | .number (.float _), h => by simp [Expr.isDocument] at h
  | .string s, _ => by
    refine ⟨_, by rw [Expr.toValue]; rfl, isDocument_taggedFields (by simp) ?_⟩
    simp [Value.isDocument]
  | .boolean b, _ => by
    refine ⟨_, by rw [Expr.toValue]; rfl, isDocument_taggedFields (by simp) ?_⟩
    simp [Value.isDocument]
  | .variable key, _ => ⟨_, by rw [Expr.toValue]; rfl, isDocument_variableTree key⟩
  | .arithmetic op operands, h => by
    rw [Expr.isDocument] at h
    obtain ⟨trees, htrees, hdocument⟩ := exists_document_all operands h
    refine ⟨_, by rw [Expr.toValue, htrees]; rfl, isDocument_taggedFields (by simp) ?_⟩
    simp [Value.isDocument, hdocument]
  | .comparison op operands, h => by
    rw [Expr.isDocument] at h
    obtain ⟨trees, htrees, hdocument⟩ := exists_document_all operands h
    refine ⟨_, by rw [Expr.toValue, htrees]; rfl, isDocument_taggedFields (by simp) ?_⟩
    simp [Value.isDocument, hdocument]
  | .conditional condition onTrue onFalse, h => by
    simp only [Expr.isDocument, Bool.and_eq_true] at h
    obtain ⟨c, hc, hcdocument⟩ := Expr.exists_document condition h.1.1
    obtain ⟨t, ht, htdocument⟩ := Expr.exists_document onTrue h.1.2
    obtain ⟨f, hf, hfdocument⟩ := Expr.exists_document onFalse h.2
    refine ⟨_, by rw [Expr.toValue, hc, ht, hf]; rfl, isDocument_taggedFields (by simp) ?_⟩
    simp [hcdocument, htdocument, hfdocument]
  | .procedure inputs body, h => by
    rw [Expr.isDocument] at h
    obtain ⟨b, hb, hdocument⟩ := Expr.exists_document body h
    refine ⟨_, by rw [Expr.toValue, hb]; rfl, isDocument_taggedFields (by simp) ?_⟩
    simp [Value.isDocument, documentItems_map_str, hdocument]
  | .call callee arguments, h => by
    simp only [Expr.isDocument, Bool.and_eq_true] at h
    obtain ⟨p, hp, hpdocument⟩ := Expr.exists_document callee h.1
    obtain ⟨trees, htrees, hdocument⟩ := exists_document_all arguments h.2
    refine ⟨_, by rw [Expr.toValue, hp, htrees]; rfl, isDocument_taggedFields (by simp) ?_⟩
    simp [Value.isDocument, hpdocument, hdocument]
  | .definition key value, h => by
    rw [Expr.isDocument] at h
    obtain ⟨v, hv, hdocument⟩ := Expr.exists_document value h
    refine ⟨_, by rw [Expr.toValue, hv]; rfl, isDocument_taggedFields (by simp) ?_⟩
    simp [isDocument_variableTree, hdocument]
  | .effect name args bind next, h => by
    simp only [Expr.isDocument, Bool.and_eq_true] at h
    obtain ⟨fields, hfields, hdocument, -⟩ := exists_document_args args h.1
    obtain ⟨tree?, hnext, hnextdocument⟩ := exists_document_next next h.2
    refine ⟨taggedFields .effect (effectFields name fields bind tree?), ?_, ?_⟩
    · rw [Expr.toValue, hfields, hnext]
      rfl
    · refine isDocument_taggedFields ?_ ?_
      -- each of the two optional fields may be missing
      · cases bind <;> cases tree? <;> simp [effectFields, bindFields]
      · cases bind <;> cases tree? <;>
          simp_all [effectFields, bindFields, Value.isDocument]
  | .block _, h => by simp [Expr.isDocument] at h
termination_by structural e => e

theorem exists_document_all : ∀ es : List Expr, documentExprs es = true →
    ∃ trees, treesOf es = .ok trees ∧ documentItems trees = true
  | [], _ => ⟨[], by rw [treesOf]; rfl, rfl⟩
  | e :: rest, h => by
    rw [documentExprs, Bool.and_eq_true] at h
    obtain ⟨tree, htree, hdocument⟩ := Expr.exists_document e h.1
    obtain ⟨trees, htrees, hall⟩ := exists_document_all rest h.2
    refine ⟨tree :: trees, by rw [treesOf, htree, htrees]; rfl, ?_⟩
    simp [documentItems, hdocument, hall]
termination_by structural es => es

/-- The arguments of an effect keep their names, so that the names of the entries differ too. -/
theorem exists_document_args : ∀ args : List (Value × Arg), documentArgs args = true →
    ∃ fields, argTrees args = .ok fields ∧ documentEntries fields = true ∧
      fields.map Prod.fst = args.map Prod.fst
  | [], _ => ⟨[], by rw [argTrees]; rfl, rfl, rfl⟩
  | (.str key, a) :: rest, h => by
    simp only [documentArgs, Bool.and_eq_true] at h
    obtain ⟨tree, htree, hdocument⟩ := Arg.exists_document a h.1.2
    obtain ⟨fields, hfields, hall, hnames⟩ := exists_document_args rest h.2
    have hkey : Bindings.has fields (.str key) =
        rest.any fun b => Value.alike (.str key) b.1 := by
      have hany := congrArg (fun names => names.any (Value.alike (.str key))) hnames
      simpa [Bindings.has_eq_any, List.any_map, Function.comp_def] using hany
    refine ⟨(.str key, tree) :: fields, by rw [argTrees, htree, hfields]; rfl, ?_, ?_⟩
    · simp only [documentEntries, hkey, hdocument, hall, h.1.1, Bool.and_true]
    · rw [List.map_cons, List.map_cons, hnames]
termination_by structural args => args

theorem Arg.exists_document : ∀ a : Arg, a.isDocument = true →
    ∃ tree, a.toValue = .ok tree ∧ tree.isDocument = true
  | .literal v, h => ⟨v, by rw [Arg.toValue]; rfl, by simpa [Arg.isDocument] using h⟩
  | .expr e, h => by
    obtain ⟨tree, htree, hdocument⟩ := Expr.exists_document e (by simpa [Arg.isDocument] using h)
    exact ⟨tree, by rw [Arg.toValue, htree], hdocument⟩
termination_by structural a => a

theorem exists_document_next : ∀ next : Option Expr, documentNext next = true →
    ∃ tree? : Option Value,
      nextFields next = .ok (match tree? with
        | none => []
        | some v => [("then", v)]) ∧
      ∀ v ∈ tree?, v.isDocument = true
  | none, _ => ⟨none, by rw [nextFields]; rfl, by simp⟩
  | some e, h => by
    obtain ⟨tree, htree, hdocument⟩ :=
      Expr.exists_document e (by simpa [documentNext] using h)
    exact ⟨some tree, by rw [nextFields, htree]; rfl, by simpa using hdocument⟩
termination_by structural next => next

end

/-! ## Round trips -/

namespace Document

variable (yaml : Yaml.Library)

/-- The JSON text of a document is a text of it, and that of a list or a map is recognised. -/
theorem exists_written_json {v tree : Value} (hbuilt : built v = .ok tree)
    (htree : tree.isDocument = true) (pretty : Bool) :
    ∃ text, writeNamed yaml (.str "json") pretty v = .ok text ∧ Json.Denotes text tree ∧
      (tree.isContainer = true → detect text = some .json) := by
  obtain ⟨text, htext, hdenotes⟩ :=
    Json.exists_writeAt (if pretty then .pretty else .compact) tree htree 0
  refine ⟨text, ?_, hdenotes, fun hcontainer => ?_⟩
  · rw [writeNamed_json, write, hbuilt]
    exact htext
  · exact detect_eq_json (Json.head?_writeAt hcontainer htext)

theorem built_document {v : Value} (h : v.isDocument = true) : built v = .ok v := by
  unfold built
  split
  next e => simp [Value.isDocument] at h
  next => exact Value.plain_document v h

theorem isContainer_of_isNodeShape {v : Value} (h : v.isNodeShape = true) :
    v.isContainer = true := by
  cases v with
  | map entries => rfl
  | _ => simp [Value.isNodeShape] at h

/-- A program comes back from its JSON text if its tree is a document that reads as the program. -/
theorem node_roundtrip {e : Expr} (hwf : e.wellFormed = true) (hinert : e.literalsInert = true)
    (hdocument : e.isDocument = true) (pretty : Bool) :
    (writeNamed yaml (.str "json") pretty (.node e) >>= readNamed yaml .null >>= Expr.ofValue) =
      .ok e := by
  obtain ⟨tree, htree, hshape, hread⟩ := e.exists_written hwf
  obtain ⟨tree', htree', htreeDocument⟩ := e.exists_document hdocument
  obtain rfl : tree = tree' := Except.ok.inj (htree.symm.trans htree')
  have hbuilt : built (.node e) = .ok tree := htree
  obtain ⟨text, htext, hdenotes, hdetect⟩ := exists_written_json yaml hbuilt htreeDocument pretty
  rw [htext, Result.ok_bind, readNamed_null hdenotes (hdetect (isContainer_of_isNodeShape hshape))]
  exact hread.2 hinert

/-- Every document comes back from its JSON text, on one line or indented. The format need not be
named if the document is a list or a map. A program that was read comes back too, if it has no
numbers but integers, no literals but documents and only texts, all of them different, for the names
of the arguments of an effect. -/
theorem json_roundtrip :
    (∀ (v : Value) (pretty : Bool), v.isDocument = true →
      (writeNamed yaml (.str "json") pretty v >>= readNamed yaml (.str "json")) = .ok v ∧
      (v.isContainer = true →
        (writeNamed yaml (.str "json") pretty v >>= readNamed yaml .null) = .ok v)) ∧
    (∀ (p : Value) (e : Expr) (pretty : Bool), p.nodesFaithful = true →
      Expr.ofValue p = .ok e → e.isDocument = true →
        (writeNamed yaml (.str "json") pretty (.node e) >>= readNamed yaml .null >>= Expr.ofValue) =
          .ok e) := by
  refine ⟨fun v pretty hv => ?_, fun p e pretty hp he hdocument => ?_⟩
  · obtain ⟨text, htext, hdenotes, hdetect⟩ :=
      exists_written_json yaml (built_document hv) hv pretty
    rw [htext]
    exact ⟨readNamed_json hdenotes, fun hcontainer => readNamed_null hdenotes (hdetect hcontainer)⟩
  · obtain ⟨tree, htree, -⟩ := e.exists_document hdocument
    obtain ⟨hwf, hinert⟩ := Expr.faithful_of_ofValue p hp he htree
    exact node_roundtrip yaml hwf hinert hdocument pretty

/-- A list with texts that JSON escapes, inside a map. -/
def escapedTexts : Value :=
  Value.ofFields [("a \"b\"", .list [.int (-120), .str "tab\t, line\n, é, 😀", .null]),
    ("", .map []), ("c", .bool true)]

/-- An effect that takes a literal, names its answer and goes on with a definition, as a tree. -/
def storeTree (raw : Value) : Value :=
  taggedFields .effect (effectFields "store" [(.str "raw", raw)] (some "r") (some shortDefinition))

/-- The effect that `storeTree` is the tree of. -/
def storeEffect (raw : Value) : Expr :=
  .effect "store" [(.str "raw", .literal raw)] (some "r") (some (.definition "y" (.variable "x")))

theorem json_roundtrip_store :
    (escapedTexts.isDocument = true ∧ escapedTexts.isContainer = true ∧
      (writeNamed .bundled (.str "json") true escapedTexts >>= readNamed .bundled .null) =
        .ok escapedTexts) ∧
    ((storeTree escapedTexts).nodesFaithful = true ∧
      Expr.ofValue (storeTree escapedTexts) = .ok (storeEffect escapedTexts) ∧
      (storeEffect escapedTexts).isDocument = true ∧
      (writeNamed .bundled (.str "json") false (.node (storeEffect escapedTexts)) >>=
        readNamed .bundled .null >>= Expr.ofValue) = .ok (storeEffect escapedTexts)) := by
  have hliteral : escapedTexts.isDocument = true := by decide +kernel
  have hfaithful : (storeTree escapedTexts).nodesFaithful = true := by decide +kernel
  have hdecoded : Expr.ofValue (storeTree escapedTexts) = .ok (storeEffect escapedTexts) := rfl
  have hdocument : (storeEffect escapedTexts).isDocument = true := by decide +kernel
  exact ⟨⟨hliteral, rfl, ((json_roundtrip .bundled).1 escapedTexts true hliteral).2 rfl⟩,
    hfaithful, hdecoded, hdocument,
    (json_roundtrip .bundled).2 (storeTree escapedTexts) _ false hfaithful hdecoded hdocument⟩

/-- An effect with one argument, whose name is any value. -/
def namedArgument (name : Value) : Expr := .effect "e" [(name, .literal (.str "x"))] none none

/-- The name of an argument can be a number, as in a tree whose keys are numbers. Such a program has
the same JSON text as the one with the digits of the number for a name, and that one is read. -/
theorem number_name_lost :
    Expr.ofValue (taggedFields .effect
      [("name", .str "e"), ("args", .map [(.int 1, .str "x")])]) = .ok (namedArgument (.int 1)) ∧
    (writeNamed .bundled (.str "json") false (.node (namedArgument (.int 1))) >>=
      readNamed .bundled .null >>= Expr.ofValue) = .ok (namedArgument (.str "1")) ∧
    namedArgument (.str "1") ≠ namedArgument (.int 1) := by
  have hsame : writeNamed .bundled (.str "json") false (.node (namedArgument (.int 1))) =
      writeNamed .bundled (.str "json") false (.node (namedArgument (.str "1"))) := by
    rw [writeNamed_json, writeNamed_json]
    rfl
  refine ⟨rfl, ?_, by simp [namedArgument]⟩
  rw [hsame]
  exact node_roundtrip .bundled rfl rfl rfl false

end Document

end TreeScript
