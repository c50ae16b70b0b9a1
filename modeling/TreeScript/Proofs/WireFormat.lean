import TreeScript.Program.Decode
import TreeScript.Program.Encode
import TreeScript.Proofs.Basic

/-!
# Programs as trees and back

A well-formed program is written as a tree (`Expr.exists_written`), and reading that tree gives the
program back exactly if no literal argument of an effect looks like a program: such a literal is
read as an expression. In the other direction, what was read from a tree is well-formed and has no
such literal (`Expr.faithful_of_ofValue`), so that writing and reading it again changes nothing.
-/

namespace TreeScript

mutual

/-- Whether a program is one that a document can mean: every part of it is a single program, names
are not empty, operations have at least two operands, and what is called is a name or a
procedure. -/
def Expr.wellFormed : Expr → Bool
  | .number _ => true
  | .string _ => true
  | .boolean _ => true
  | .variable key => key != ""
  | .arithmetic _ operands => 2 ≤ operands.length && wellFormedAll operands
  | .comparison _ operands => 2 ≤ operands.length && wellFormedAll operands
  | .conditional condition onTrue onFalse =>
    Expr.wellFormed condition && Expr.wellFormed onTrue && Expr.wellFormed onFalse
  | .procedure inputs body => inputs.all (· != "") && Expr.wellFormed body
  | .call callee arguments =>
    (checkCallee callee).isOk && Expr.wellFormed callee && wellFormedAll arguments
  | .definition key value => key != "" && Expr.wellFormed value
  | .effect name args bind next =>
    name != "" && wellFormedArgs args && bind.all (· != "") && wellFormedNext next
  | .block _ => false
termination_by structural e => e

/-- Whether all programs of a list are well-formed. -/
def wellFormedAll : List Expr → Bool
  | [] => true
  | e :: rest => Expr.wellFormed e && wellFormedAll rest
termination_by structural es => es

/-- Whether the arguments of an effect that are expressions are well-formed. -/
def wellFormedArgs : List (Value × Arg) → Bool
  | [] => true
  | (_, a) :: rest => Arg.wellFormed a && wellFormedArgs rest
termination_by structural as => as

/-- Whether an argument is a literal or a well-formed expression. -/
def Arg.wellFormed : Arg → Bool
  | .literal _ => true
  | .expr e => Expr.wellFormed e
termination_by structural a => a

/-- Whether what an effect goes on with is well-formed. -/
def wellFormedNext : Option Expr → Bool
  | none => true
  | some e => Expr.wellFormed e
termination_by structural e => e

end

mutual

/-- Whether no literal argument in a program looks like a program. -/
def Expr.literalsInert : Expr → Bool
  | .arithmetic _ operands => inertAll operands
  | .comparison _ operands => inertAll operands
  | .conditional condition onTrue onFalse =>
    Expr.literalsInert condition && Expr.literalsInert onTrue && Expr.literalsInert onFalse
  | .procedure _ body => Expr.literalsInert body
  | .call callee arguments => Expr.literalsInert callee && inertAll arguments
  | .definition _ value => Expr.literalsInert value
  | .effect _ args _ next => inertArgs args && inertNext next
  | .block items => inertAll items
  | _ => true
termination_by structural e => e

/-- Whether no literal argument in the programs of a list looks like a program. -/
def inertAll : List Expr → Bool
  | [] => true
  | e :: rest => Expr.literalsInert e && inertAll rest
termination_by structural es => es

/-- Whether no literal among or within the arguments of an effect looks like a program. -/
def inertArgs : List (Value × Arg) → Bool
  | [] => true
  | (_, a) :: rest => Arg.literalsInert a && inertArgs rest
termination_by structural as => as

/-- Whether an argument neither is nor holds a literal that looks like a program. -/
def Arg.literalsInert : Arg → Bool
  | .literal v => !v.isNodeShape
  | .expr e => Expr.literalsInert e
termination_by structural a => a

/-- Whether no literal argument in what an effect goes on with looks like a program. -/
def inertNext : Option Expr → Bool
  | none => true
  | some e => Expr.literalsInert e
termination_by structural e => e

end

/-! ## Reading the fields of a node -/

theorem Tag.ofName?_name (tag : Tag) : Tag.ofName? tag.name = some tag := by
  cases tag <;> rfl

theorem ArithmeticOp.ofSymbol?_symbol (op : ArithmeticOp) :
    ArithmeticOp.ofSymbol? op.symbol = some op := by
  cases op <;> rfl

theorem ComparisonOp.ofSymbol?_symbol (op : ComparisonOp) :
    ComparisonOp.ofSymbol? op.symbol = some op := by
  cases op <;> rfl

/-- The tag of a node is the one it is written with. -/
@[simp]
theorem requireTag_type (tag : Tag) (fields : Bindings) :
    requireTag ((.str "type", .str tag.name) :: fields) = .ok tag := by
  simp [requireTag, tagOf?, Bindings.getD, Value.checkKey, Value.unhashable?, Tag.ofName?_name]

theorem isNodeShape_taggedFields (tag : Tag) (fields : List (String × Value)) :
    (taggedFields tag fields).isNodeShape = true := by
  simp [taggedFields, Value.ofFields, Value.isNodeShape, tagOf?, Tag.ofName?_name]

theorem nameOf_str {place name : String} (h : name ≠ "") : nameOf place (.str name) = .ok name := by
  simp [nameOf, h]

theorem nameOf_variableTree {place name : String} (h : name ≠ "") :
    nameOf place (variableTree name) = .ok name := by
  simp [nameOf, variableTree, taggedFields, Value.ofFields, Tag.name, Bindings.getD, h]

@[simp]
theorem exprField?_cons_str (field key : String) (v : Value) (rest : Bindings) :
    exprField? field ((.str key, v) :: rest) =
      if field = key then some (Expr.ofValue v) else exprField? field rest := by
  simp [exprField?, Value.equal]

@[simp]
theorem exprsField?_cons_str (tag : Tag) (field key : String) (v : Value) (rest : Bindings) :
    exprsField? tag field ((.str key, v) :: rest) =
      if field = key then some (exprsOfValue tag field v) else exprsField? tag field rest := by
  simp [exprsField?, Value.equal]

@[simp]
theorem argsField_cons_str (key : String) (v : Value) (rest : Bindings) :
    argsField ((.str key, v) :: rest) =
      if "args" = key then argsOfValue v else argsField rest := by
  simp [argsField, Value.equal]

@[simp]
theorem nextField_nil : nextField [] = .ok none := by
  simp [nextField]

@[simp]
theorem nextField_cons_str (key : String) (v : Value) (rest : Bindings) :
    nextField ((.str key, v) :: rest) =
      if "then" = key then (if v.isNull then .ok none else some <$> Expr.ofValue v)
      else nextField rest := by
  simp [nextField, Value.equal]

/-! ## Reading the tree of a program -/

theorem ofValue_arithmetic (op : ArithmeticOp) (trees : List Value) :
    Expr.ofValue (taggedFields .arithmetic
        [("operation", .str op.symbol), ("operands", .list trees)]) = (do
      let operands ← exprsOf trees
      let operands ← atLeastTwo .arithmetic operands
      pure (.arithmetic op operands)) := by
  simp [taggedFields, Value.ofFields, Expr.ofValue, requireField, operatorOf,
    ArithmeticOp.ofSymbol?_symbol, orMissing, exprsOfValue]

theorem ofValue_comparison (op : ComparisonOp) (trees : List Value) :
    Expr.ofValue (taggedFields .comparison
        [("operation", .str op.symbol), ("operands", .list trees)]) = (do
      let operands ← exprsOf trees
      let operands ← atLeastTwo .comparison operands
      pure (.comparison op operands)) := by
  simp [taggedFields, Value.ofFields, Expr.ofValue, requireField, operatorOf,
    ComparisonOp.ofSymbol?_symbol, orMissing, exprsOfValue]

theorem ofValue_conditional (c t f : Value) :
    Expr.ofValue (taggedFields .conditional
        [("condition", c), ("trueReturn", t), ("falseReturn", f)]) = (do
      let condition ← Expr.ofValue c
      let onTrue ← Expr.ofValue t
      let onFalse ← Expr.ofValue f
      pure (.conditional condition onTrue onFalse)) := by
  simp [taggedFields, Value.ofFields, Expr.ofValue, orMissing]

theorem inputsOf_map_str {inputs : List String} (h : inputs.all (· != "") = true) :
    inputsOf (.list (inputs.map .str)) = .ok inputs := by
  show (inputs.map Value.str).mapM (nameOf "procedure input") = .ok inputs
  induction inputs with
  | nil => rfl
  | cons name rest ih =>
    simp only [List.all_cons, Bool.and_eq_true, bne_iff_ne] at h
    rw [List.map_cons, List.mapM_cons, nameOf_str h.1, ih h.2]
    rfl

theorem ofValue_procedure {inputs : List String} (h : inputs.all (· != "") = true) (b : Value) :
    Expr.ofValue (taggedFields .procedure [("inputs", .list (inputs.map .str)), ("body", b)]) = (do
      let body ← Expr.ofValue b
      pure (.procedure inputs body)) := by
  simp [taggedFields, Value.ofFields, Expr.ofValue, requireField, orMissing, inputsOf_map_str h]

theorem ofValue_call (p : Value) (trees : List Value) :
    Expr.ofValue (taggedFields .call [("procedure", p), ("arguments", .list trees)]) = (do
      let callee ← Expr.ofValue p
      checkCallee callee
      let arguments ← exprsOf trees
      pure (.call callee arguments)) := by
  simp [taggedFields, Value.ofFields, Expr.ofValue, orMissing, exprsOfValue]

theorem ofValue_definition {key : String} (h : key ≠ "") (v : Value) :
    Expr.ofValue (taggedFields .definition [("key", variableTree key), ("value", v)]) = (do
      let value ← Expr.ofValue v
      pure (.definition key value)) := by
  simp [taggedFields, Value.ofFields, Expr.ofValue, requireField, orMissing, nameOf_variableTree h]

/-- The argument that a tree is read as. -/
def readArg (v : Value) : Result Arg :=
  if v.isNodeShape then Arg.expr <$> Expr.ofValue v else pure (.literal v)

theorem argsOf_cons (k v : Value) (rest : Bindings) :
    argsOf ((k, v) :: rest) = (do
      let a ← readArg v
      let others ← argsOf rest
      pure ((k, a) :: others)) := by
  rw [argsOf, readArg]
  cases v.isNodeShape <;> rfl

/-- The fields that an effect is written with, after its tag. -/
def effectFields (name : String) (fields : Bindings) (bind : Option String) (next : Option Value) :
    List (String × Value) :=
  [("name", .str name), ("args", .map fields)] ++ bindFields bind ++
    (match next with
    | none => []
    | some v => [("then", v)])

theorem isNull_of_isNodeShape {v : Value} (h : v.isNodeShape = true) : v.isNull = false := by
  cases v with
  | null => exact absurd h (by simp [Value.isNodeShape])
  | _ => rfl

/-- What an effect goes on with, read from the tree in its field. -/
def readNext : Option Value → Result (Option Expr)
  | none => pure none
  | some v => some <$> Expr.ofValue v

theorem ofValue_effect {name : String} (hname : name ≠ "") (fields : Bindings)
    {bind : Option String} (hbind : bind.all (· != "") = true) {next : Option Value}
    (hnext : ∀ v ∈ next, v.isNodeShape = true) :
    Expr.ofValue (taggedFields .effect (effectFields name fields bind next)) = (do
      let args ← argsOf fields
      let continuation ← readNext next
      pure (.effect name args bind continuation)) := by
  cases bind with
  | none =>
    cases next with
    | none =>
      simp [taggedFields, Value.ofFields, effectFields, Expr.ofValue, requireField, bindFields,
        nameOf_str hname, argsOfValue, bindOf, Bindings.getD, readNext]
    | some v =>
      simp [taggedFields, Value.ofFields, effectFields, Expr.ofValue, requireField, bindFields,
        nameOf_str hname, argsOfValue, bindOf, Bindings.getD, readNext,
        isNull_of_isNodeShape (hnext v rfl)]
  | some key =>
    have hkey : key ≠ "" := by simpa using hbind
    cases next with
    | none =>
      simp [taggedFields, Value.ofFields, effectFields, Expr.ofValue, requireField, bindFields,
        nameOf_str hname, argsOfValue, bindOf, Bindings.getD, nameOf_str hkey, readNext]
    | some v =>
      simp [taggedFields, Value.ofFields, effectFields, Expr.ofValue, requireField, bindFields,
        nameOf_str hname, argsOfValue, bindOf, Bindings.getD, nameOf_str hkey, readNext,
        isNull_of_isNodeShape (hnext v rfl)]

theorem atLeastTwo_eq_ok {tag : Tag} {es es' : List Expr} :
    atLeastTwo tag es = .ok es' ↔ 2 ≤ es.length ∧ es = es' := by
  unfold atLeastTwo
  by_cases h : es.length < 2
  · have h' : ¬2 ≤ es.length := by omega
    simp [h, h']
  · have h' : 2 ≤ es.length := by omega
    simp [h, h']

theorem checkCallee_eq_ok {callee : Expr} : checkCallee callee = .ok () ↔
    (checkCallee callee).isOk = true := by
  cases checkCallee callee <;> simp [Except.isOk, Except.toBool]

/-! ## Reading a written program -/

/-- The tree that a program is written as. It looks like a program, and it reads back as the program
it was written from exactly if no literal in that program looks like one. -/
def Expr.Written (e : Expr) (tree : Value) : Prop :=
  e.toValue = .ok tree ∧ tree.isNodeShape = true ∧
    (Expr.ofValue tree = .ok e ↔ e.literalsInert = true)

mutual

/-- A well-formed program is written as a tree. -/
theorem Expr.exists_written : ∀ e : Expr, e.wellFormed = true → ∃ tree, e.Written tree
  | .number n, _ => by
    refine ⟨_, by rw [Expr.toValue]; rfl, isNodeShape_taggedFields .., ?_⟩
    cases n <;> simp [taggedFields, Value.ofFields, Expr.ofValue, requireField, Number.toValue,
      numberOf, Expr.literalsInert]
  | .string s, _ => by
    refine ⟨_, by rw [Expr.toValue]; rfl, isNodeShape_taggedFields .., ?_⟩
    simp [taggedFields, Value.ofFields, Expr.ofValue, requireField, stringOf, Expr.literalsInert]
  | .boolean b, _ => by
    refine ⟨_, by rw [Expr.toValue]; rfl, isNodeShape_taggedFields .., ?_⟩
    simp [taggedFields, Value.ofFields, Expr.ofValue, requireField, booleanOf, Expr.literalsInert]
  | .variable key, h => by
    have hkey : key ≠ "" := by simpa [Expr.wellFormed] using h
    refine ⟨_, by rw [Expr.toValue]; rfl, isNodeShape_taggedFields .., ?_⟩
    simp [taggedFields, Value.ofFields, Expr.ofValue, requireField, nameOf_str hkey,
      Expr.literalsInert]
  | .arithmetic op operands, h => by
    obtain ⟨hlen, hall⟩ : 2 ≤ operands.length ∧ wellFormedAll operands = true := by
      simpa [Expr.wellFormed] using h
    obtain ⟨trees, htrees, hread⟩ := exists_written_all operands hall
    refine ⟨_, by rw [Expr.toValue, htrees]; rfl, isNodeShape_taggedFields .., ?_⟩
    rw [ofValue_arithmetic, Expr.literalsInert, ← hread]
    simp [Result.bind_eq_ok, atLeastTwo_eq_ok, hlen]
  | .comparison op operands, h => by
    obtain ⟨hlen, hall⟩ : 2 ≤ operands.length ∧ wellFormedAll operands = true := by
      simpa [Expr.wellFormed] using h
    obtain ⟨trees, htrees, hread⟩ := exists_written_all operands hall
    refine ⟨_, by rw [Expr.toValue, htrees]; rfl, isNodeShape_taggedFields .., ?_⟩
    rw [ofValue_comparison, Expr.literalsInert, ← hread]
    simp [Result.bind_eq_ok, atLeastTwo_eq_ok, hlen]
  | .conditional condition onTrue onFalse, h => by
    obtain ⟨⟨hc, ht⟩, hf⟩ : (condition.wellFormed = true ∧ onTrue.wellFormed = true) ∧
        onFalse.wellFormed = true := by
      simpa [Expr.wellFormed] using h
    obtain ⟨c, hc, -, hcread⟩ := Expr.exists_written condition hc
    obtain ⟨t, ht, -, htread⟩ := Expr.exists_written onTrue ht
    obtain ⟨f, hf, -, hfread⟩ := Expr.exists_written onFalse hf
    refine ⟨_, by rw [Expr.toValue, hc, ht, hf]; rfl, isNodeShape_taggedFields .., ?_⟩
    simp only [ofValue_conditional, Expr.literalsInert, Bool.and_eq_true, ← hcread, ← htread,
      ← hfread, Result.bind_eq_ok]
    constructor
    · rintro ⟨_, hc, _, ht, _, hf, ⟨⟩⟩
      exact ⟨⟨hc, ht⟩, hf⟩
    · rintro ⟨⟨hc, ht⟩, hf⟩
      exact ⟨_, hc, _, ht, _, hf, rfl⟩
  | .procedure inputs body, h => by
    obtain ⟨hinputs, hbody⟩ : inputs.all (· != "") = true ∧ body.wellFormed = true := by
      simpa only [Expr.wellFormed, Bool.and_eq_true] using h
    obtain ⟨b, hb, -, hread⟩ := Expr.exists_written body hbody
    refine ⟨_, by rw [Expr.toValue, hb]; rfl, isNodeShape_taggedFields .., ?_⟩
    rw [ofValue_procedure hinputs, Expr.literalsInert, ← hread]
    simp [Result.bind_eq_ok]
  | .call callee arguments, h => by
    obtain ⟨⟨hcheck, hcallee⟩, hall⟩ : ((checkCallee callee).isOk = true ∧
        callee.wellFormed = true) ∧ wellFormedAll arguments = true := by
      simpa only [Expr.wellFormed, Bool.and_eq_true] using h
    obtain ⟨p, hp, -, hpread⟩ := Expr.exists_written callee hcallee
    obtain ⟨trees, htrees, hread⟩ := exists_written_all arguments hall
    refine ⟨_, by rw [Expr.toValue, hp, htrees]; rfl, isNodeShape_taggedFields .., ?_⟩
    simp only [ofValue_call, Expr.literalsInert, Bool.and_eq_true, ← hpread, ← hread,
      Result.bind_eq_ok]
    constructor
    · rintro ⟨_, hp, _, _, _, hargs, ⟨⟩⟩
      exact ⟨hp, hargs⟩
    · rintro ⟨hp, hargs⟩
      -- the check between the two readings is a part of well-formedness
      exact ⟨_, hp, _, checkCallee_eq_ok.2 hcheck, _, hargs, rfl⟩
  | .definition key value, h => by
    obtain ⟨hkey, hvalue⟩ : key ≠ "" ∧ value.wellFormed = true := by
      simpa [Expr.wellFormed] using h
    obtain ⟨v, hv, -, hread⟩ := Expr.exists_written value hvalue
    refine ⟨_, by rw [Expr.toValue, hv]; rfl, isNodeShape_taggedFields .., ?_⟩
    rw [ofValue_definition hkey, Expr.literalsInert, ← hread]
    simp [Result.bind_eq_ok]
  | .effect name args bind next, h => by
    obtain ⟨⟨⟨hname, hargs⟩, hbind⟩, hnext⟩ : ((name ≠ "" ∧ wellFormedArgs args = true) ∧
        bind.all (· != "") = true) ∧ wellFormedNext next = true := by
      simpa only [Expr.wellFormed, Bool.and_eq_true, bne_iff_ne] using h
    obtain ⟨fields, hfields, hargsread⟩ := exists_written_args args hargs
    obtain ⟨tree?, hfields', hshape, hnextread⟩ := exists_written_next next hnext
    have hwritten : (Expr.effect name args bind next).toValue =
        .ok (taggedFields .effect (effectFields name fields bind tree?)) := by
      rw [Expr.toValue, hfields, hfields']
      rfl
    refine ⟨_, hwritten, isNodeShape_taggedFields .., ?_⟩
    simp only [ofValue_effect hname fields hbind hshape, Expr.literalsInert, Bool.and_eq_true,
      ← hargsread, ← hnextread, Result.bind_eq_ok]
    constructor
    · rintro ⟨_, hargs, _, hnext, ⟨⟩⟩
      exact ⟨hargs, hnext⟩
    · rintro ⟨hargs, hnext⟩
      exact ⟨_, hargs, _, hnext, rfl⟩
  | .block _, h => by simp [Expr.wellFormed] at h
termination_by structural e => e

/-- Well-formed programs are written as a list of trees. -/
theorem exists_written_all : ∀ es : List Expr, wellFormedAll es = true →
    ∃ trees, treesOf es = .ok trees ∧ (exprsOf trees = .ok es ↔ inertAll es = true)
  | [], _ => ⟨[], by rw [treesOf]; rfl, by simp [exprsOf, inertAll]⟩
  | e :: rest, h => by
    obtain ⟨he, hrest⟩ : e.wellFormed = true ∧ wellFormedAll rest = true := by
      simpa only [wellFormedAll, Bool.and_eq_true] using h
    obtain ⟨tree, htree, -, hread⟩ := Expr.exists_written e he
    obtain ⟨trees, htrees, hreads⟩ := exists_written_all rest hrest
    refine ⟨tree :: trees, by rw [treesOf, htree, htrees]; rfl, ?_⟩
    simp only [exprsOf, inertAll, Bool.and_eq_true, ← hread, ← hreads, Result.bind_eq_ok]
    constructor
    · rintro ⟨_, h, _, hs, ⟨⟩⟩
      exact ⟨h, hs⟩
    · rintro ⟨h, hs⟩
      exact ⟨_, h, _, hs, rfl⟩
termination_by structural es => es

/-- Well-formed arguments of an effect are written as the entries of a map. -/
theorem exists_written_args : ∀ args : List (Value × Arg), wellFormedArgs args = true →
    ∃ fields, argTrees args = .ok fields ∧ (argsOf fields = .ok args ↔ inertArgs args = true)
  | [], _ => ⟨[], by rw [argTrees]; rfl, by simp [argsOf, inertArgs]⟩
  | (k, a) :: rest, h => by
    obtain ⟨ha, hrest⟩ : a.wellFormed = true ∧ wellFormedArgs rest = true := by
      simpa only [wellFormedArgs, Bool.and_eq_true] using h
    obtain ⟨tree, htree, hread⟩ := Arg.exists_written a ha
    obtain ⟨fields, hfields, hreads⟩ := exists_written_args rest hrest
    refine ⟨(k, tree) :: fields, by rw [argTrees, htree, hfields]; rfl, ?_⟩
    simp only [argsOf_cons, inertArgs, Bool.and_eq_true, ← hread, ← hreads, Result.bind_eq_ok]
    constructor
    · rintro ⟨_, h, _, hs, ⟨⟩⟩
      exact ⟨h, hs⟩
    · rintro ⟨h, hs⟩
      exact ⟨_, h, _, hs, rfl⟩
termination_by structural args => args

/-- A well-formed argument of an effect is written as a tree, which is an expression again if it
was one. -/
theorem Arg.exists_written : ∀ a : Arg, a.wellFormed = true →
    ∃ tree, a.toValue = .ok tree ∧ (readArg tree = .ok a ↔ a.literalsInert = true)
  | .literal v, _ => by
    refine ⟨v, by rw [Arg.toValue]; rfl, ?_⟩
    rw [Arg.literalsInert, readArg]
    cases v.isNodeShape with
    | true => simp [Result.map_eq_ok]
    | false => simp
  | .expr e, h => by
    obtain ⟨tree, htree, hshape, hread⟩ := Expr.exists_written e (by simpa [Arg.wellFormed] using h)
    refine ⟨tree, by rw [Arg.toValue, htree], ?_⟩
    rw [readArg, if_pos hshape, Arg.literalsInert, ← hread]
    simp [Result.map_eq_ok]
termination_by structural a => a

/-- What a well-formed effect goes on with is written as a tree that is a program. -/
theorem exists_written_next : ∀ next : Option Expr, wellFormedNext next = true →
    ∃ tree? : Option Value,
      nextFields next = .ok (match tree? with
        | none => []
        | some v => [("then", v)]) ∧
      (∀ v ∈ tree?, v.isNodeShape = true) ∧
      (readNext tree? = .ok next ↔ inertNext next = true)
  | none, _ => ⟨none, by rw [nextFields]; rfl, by simp, by simp [readNext, inertNext]⟩
  | some e, h => by
    obtain ⟨tree, htree, hshape, hread⟩ :=
      Expr.exists_written e (by simpa [wellFormedNext] using h)
    refine ⟨some tree, by rw [nextFields, htree]; rfl, by simpa using hshape, ?_⟩
    rw [readNext, inertNext, ← hread]
    simp [Result.map_eq_ok]
termination_by structural next => next

end

/-! ## Writing what was read -/

mutual

/-- Whether the programs that a tree holds in decoded form, if any, are written as trees that read
back as them. A tree that a document holds has none. -/
def Value.nodesFaithful : Value → Bool
  | .list items => itemsFaithful items
  | .map entries => entriesFaithful entries
  | .node e => e.wellFormed && e.literalsInert
  | _ => true
termination_by structural v => v

/-- Whether the decoded programs in a list of trees read back as themselves. -/
def itemsFaithful : List Value → Bool
  | [] => true
  | v :: rest => Value.nodesFaithful v && itemsFaithful rest
termination_by structural vs => vs

/-- Whether the decoded programs in the fields of a map read back as themselves. -/
def entriesFaithful : List (Value × Value) → Bool
  | [] => true
  | (_, v) :: rest => Value.nodesFaithful v && entriesFaithful rest
termination_by structural es => es

end

theorem nameOf_ne_empty {place name : String} {v : Value} (h : nameOf place v = .ok name) :
    name ≠ "" := by
  unfold nameOf at h
  extract_lets named at h
  clear_value named
  cases named with
  | str s =>
    by_cases hs : s = ""
    · simp [hs] at h
    · simp [hs] at h
      exact h ▸ hs
  | _ =>
    obtain ⟨shown, -, h⟩ := Result.bind_eq_ok.1 h
    cases h

theorem inputsOf_all_ne_empty {v : Value} {inputs : List String} (h : inputsOf v = .ok inputs) :
    inputs.all (· != "") = true := by
  unfold inputsOf at h
  split at h
  next items =>
    induction items generalizing inputs with
    | nil =>
      cases h
      rfl
    | cons item rest ih =>
      rw [List.mapM_cons] at h
      obtain ⟨name, hname, h⟩ := Result.bind_eq_ok.1 h
      obtain ⟨names, hnames, h⟩ := Result.bind_eq_ok.1 h
      cases h
      simp only [List.all_cons, Bool.and_eq_true, bne_iff_ne]
      exact ⟨nameOf_ne_empty hname, ih hnames⟩
  next => cases h

theorem bindOf_all_ne_empty {entries : Bindings} {bind : Option String}
    (h : bindOf entries = .ok bind) : bind.all (· != "") = true := by
  unfold bindOf at h
  split at h
  next =>
    cases h
    rfl
  next =>
    obtain ⟨name, hname, rfl⟩ := Result.map_eq_ok.1 h
    simpa using nameOf_ne_empty hname

theorem numberOf_eq_ok {v : Value} {e : Expr} (h : numberOf v = .ok e) : ∃ n, e = .number n := by
  unfold numberOf at h
  split at h
  next i => exact ⟨.int i, by cases h; rfl⟩
  next x => exact ⟨.float x, by cases h; rfl⟩
  next =>
    obtain ⟨shown, -, h⟩ := Result.bind_eq_ok.1 h
    cases h

theorem stringOf_eq_ok {v : Value} {e : Expr} (h : stringOf v = .ok e) : ∃ s, e = .string s := by
  unfold stringOf at h
  split at h
  next s => exact ⟨s, by cases h; rfl⟩
  next =>
    obtain ⟨shown, -, h⟩ := Result.bind_eq_ok.1 h
    cases h

theorem booleanOf_eq_ok {v : Value} {e : Expr} (h : booleanOf v = .ok e) :
    ∃ b, e = .boolean b := by
  unfold booleanOf at h
  split at h
  next b => exact ⟨b, by cases h; rfl⟩
  next =>
    obtain ⟨shown, -, h⟩ := Result.bind_eq_ok.1 h
    cases h

theorem orMissing_eq_ok {α : Type} {tag : Tag} {field : String} {found : Option (Result α)} {a : α}
    (h : orMissing tag field found = .ok a) : found = some (.ok a) := by
  cases found with
  | none => cases h
  | some result => exact congrArg some h

mutual

/-- A program that was read from a tree and can be written is well-formed, and no literal in it
looks like a program: what looked like one was read as an expression. -/
theorem Expr.faithful_of_ofValue : ∀ p : Value, p.nodesFaithful = true → ∀ {e q},
    Expr.ofValue p = .ok e → e.toValue = .ok q → e.wellFormed = true ∧ e.literalsInert = true
  | .node e, hp, _, _, he, _ => by
    rw [Expr.ofValue] at he
    cases he
    simpa [Value.nodesFaithful] using hp
  -- a list is read as a block, which is never written
  | .list items, _, _, _, he, hq => by
    rw [Expr.ofValue] at he
    obtain ⟨es, -, he⟩ := Result.bind_eq_ok.1 he
    cases he
    rw [Expr.toValue] at hq
    obtain ⟨shown, -, hq⟩ := Result.bind_eq_ok.1 hq
    cases hq
  | .map entries, hp, e, q, he, hq => by
    rw [Expr.ofValue] at he
    obtain ⟨tag, -, he⟩ := Result.bind_eq_ok.1 he
    have hfields : entriesFaithful entries = true := by simpa [Value.nodesFaithful] using hp
    -- each case undoes the reading and the writing up to the fields that hold expressions
    cases tag with
    | number =>
      obtain ⟨v, -, he⟩ := Result.bind_eq_ok.1 he
      obtain ⟨n, rfl⟩ := numberOf_eq_ok he
      simp [Expr.wellFormed, Expr.literalsInert]
    | string =>
      obtain ⟨v, -, he⟩ := Result.bind_eq_ok.1 he
      obtain ⟨s, rfl⟩ := stringOf_eq_ok he
      simp [Expr.wellFormed, Expr.literalsInert]
    | boolean =>
      obtain ⟨v, -, he⟩ := Result.bind_eq_ok.1 he
      obtain ⟨b, rfl⟩ := booleanOf_eq_ok he
      simp [Expr.wellFormed, Expr.literalsInert]
    | «variable» =>
      obtain ⟨v, -, he⟩ := Result.bind_eq_ok.1 he
      obtain ⟨key, hkey, he⟩ := Result.bind_eq_ok.1 he
      cases he
      simp [Expr.wellFormed, Expr.literalsInert, nameOf_ne_empty hkey]
    | arithmetic =>
      obtain ⟨v, -, he⟩ := Result.bind_eq_ok.1 he
      obtain ⟨op, -, he⟩ := Result.bind_eq_ok.1 he
      obtain ⟨operands, hoperands, he⟩ := Result.bind_eq_ok.1 he
      obtain ⟨_, hcount, he⟩ := Result.bind_eq_ok.1 he
      obtain ⟨hlen, rfl⟩ := atLeastTwo_eq_ok.1 hcount
      cases he
      rw [Expr.toValue] at hq
      obtain ⟨trees, htrees, -⟩ := Result.bind_eq_ok.1 hq
      obtain ⟨hwf, hinert⟩ :=
        faithful_of_exprsField entries hfields (orMissing_eq_ok hoperands) htrees
      simp [Expr.wellFormed, Expr.literalsInert, hlen, hwf, hinert]
    | comparison =>
      obtain ⟨v, -, he⟩ := Result.bind_eq_ok.1 he
      obtain ⟨op, -, he⟩ := Result.bind_eq_ok.1 he
      obtain ⟨operands, hoperands, he⟩ := Result.bind_eq_ok.1 he
      obtain ⟨_, hcount, he⟩ := Result.bind_eq_ok.1 he
      obtain ⟨hlen, rfl⟩ := atLeastTwo_eq_ok.1 hcount
      cases he
      rw [Expr.toValue] at hq
      obtain ⟨trees, htrees, -⟩ := Result.bind_eq_ok.1 hq
      obtain ⟨hwf, hinert⟩ :=
        faithful_of_exprsField entries hfields (orMissing_eq_ok hoperands) htrees
      simp [Expr.wellFormed, Expr.literalsInert, hlen, hwf, hinert]
    | conditional =>
      obtain ⟨condition, hc, he⟩ := Result.bind_eq_ok.1 he
      obtain ⟨onTrue, ht, he⟩ := Result.bind_eq_ok.1 he
      obtain ⟨onFalse, hf, he⟩ := Result.bind_eq_ok.1 he
      cases he
      rw [Expr.toValue] at hq
      obtain ⟨c, hc', hq⟩ := Result.bind_eq_ok.1 hq
      obtain ⟨t, ht', hq⟩ := Result.bind_eq_ok.1 hq
      obtain ⟨f, hf', -⟩ := Result.bind_eq_ok.1 hq
      have hc := faithful_of_exprField entries hfields (orMissing_eq_ok hc) hc'
      have ht := faithful_of_exprField entries hfields (orMissing_eq_ok ht) ht'
      have hf := faithful_of_exprField entries hfields (orMissing_eq_ok hf) hf'
      simp [Expr.wellFormed, Expr.literalsInert, hc, ht, hf]
    | procedure =>
      obtain ⟨v, -, he⟩ := Result.bind_eq_ok.1 he
      obtain ⟨inputs, hinputs, he⟩ := Result.bind_eq_ok.1 he
      obtain ⟨body, hbody, he⟩ := Result.bind_eq_ok.1 he
      cases he
      rw [Expr.toValue] at hq
      obtain ⟨b, hb, -⟩ := Result.bind_eq_ok.1 hq
      have hbody := faithful_of_exprField entries hfields (orMissing_eq_ok hbody) hb
      rw [Expr.wellFormed, Expr.literalsInert, inputsOf_all_ne_empty hinputs]
      simpa using hbody
    | call =>
      obtain ⟨callee, hcallee, he⟩ := Result.bind_eq_ok.1 he
      obtain ⟨_, hcheck, he⟩ := Result.bind_eq_ok.1 he
      obtain ⟨arguments, harguments, he⟩ := Result.bind_eq_ok.1 he
      cases he
      rw [Expr.toValue] at hq
      obtain ⟨p, hp', hq⟩ := Result.bind_eq_ok.1 hq
      obtain ⟨trees, htrees, -⟩ := Result.bind_eq_ok.1 hq
      have hcallee := faithful_of_exprField entries hfields (orMissing_eq_ok hcallee) hp'
      have hall := faithful_of_exprsField entries hfields (orMissing_eq_ok harguments) htrees
      simp [Expr.wellFormed, Expr.literalsInert, hcallee, hall, checkCallee_eq_ok.1 hcheck]
    | definition =>
      obtain ⟨v, -, he⟩ := Result.bind_eq_ok.1 he
      obtain ⟨key, hkey, he⟩ := Result.bind_eq_ok.1 he
      obtain ⟨value, hvalue, he⟩ := Result.bind_eq_ok.1 he
      cases he
      rw [Expr.toValue] at hq
      obtain ⟨v', hv', -⟩ := Result.bind_eq_ok.1 hq
      have hvalue := faithful_of_exprField entries hfields (orMissing_eq_ok hvalue) hv'
      simp [Expr.wellFormed, Expr.literalsInert, hvalue, nameOf_ne_empty hkey]
    | effect =>
      obtain ⟨v, -, he⟩ := Result.bind_eq_ok.1 he
      obtain ⟨name, hname, he⟩ := Result.bind_eq_ok.1 he
      obtain ⟨args, hargs, he⟩ := Result.bind_eq_ok.1 he
      obtain ⟨bind, hbind, he⟩ := Result.bind_eq_ok.1 he
      obtain ⟨next, hnext, he⟩ := Result.bind_eq_ok.1 he
      cases he
      rw [Expr.toValue] at hq
      obtain ⟨fields, hfields', hq⟩ := Result.bind_eq_ok.1 hq
      obtain ⟨continued, hcontinued, -⟩ := Result.bind_eq_ok.1 hq
      have hargs := faithful_of_argsField entries hfields hargs hfields'
      have hnext := faithful_of_nextField entries hfields hnext hcontinued
      rw [Expr.wellFormed, Expr.literalsInert, bindOf_all_ne_empty hbind]
      simp [nameOf_ne_empty hname, hargs, hnext]
  -- nothing else is read as a program
  | .null, _, _, _, he, _ | .bool _, _, _, _, he, _ | .int _, _, _, _, he, _
  | .float _, _, _, _, he, _ | .str _, _, _, _, he, _ | .tuple _, _, _, _, he, _
  | .env _, _, _, _, he, _ | .object _, _, _, _, he, _ | .set _, _, _, _, he, _
  | .bytes _, _, _, _, he, _ | .date _, _, _, _, he, _ | .datetime _, _, _, _, he, _
  | .undefined, _, _, _, he, _ | .closure .., _, _, _, he, _ | .literal _, _, _, _, he, _ => by
    simp [Expr.ofValue] at he
termination_by structural p => p

theorem faithful_of_exprsOf : ∀ vs : List Value, itemsFaithful vs = true → ∀ {es qs},
    exprsOf vs = .ok es → treesOf es = .ok qs → wellFormedAll es = true ∧ inertAll es = true
  | [], _, _, _, hes, _ => by
    rw [exprsOf] at hes
    cases hes
    simp [wellFormedAll, inertAll]
  | v :: rest, hvs, _, _, hes, hqs => by
    obtain ⟨hv, hrest⟩ : v.nodesFaithful = true ∧ itemsFaithful rest = true := by
      simpa [itemsFaithful] using hvs
    rw [exprsOf] at hes
    obtain ⟨e, he, hes⟩ := Result.bind_eq_ok.1 hes
    obtain ⟨es, hes', hes⟩ := Result.bind_eq_ok.1 hes
    cases hes
    rw [treesOf] at hqs
    obtain ⟨q, hq, hqs⟩ := Result.bind_eq_ok.1 hqs
    obtain ⟨qs, hqs', -⟩ := Result.bind_eq_ok.1 hqs
    have he := Expr.faithful_of_ofValue v hv he hq
    have hes := faithful_of_exprsOf rest hrest hes' hqs'
    simp [wellFormedAll, inertAll, he, hes]
termination_by structural vs => vs

theorem faithful_of_exprField : ∀ entries : List (Value × Value), entriesFaithful entries = true →
    ∀ {field e q}, exprField? field entries = some (.ok e) → e.toValue = .ok q →
      e.wellFormed = true ∧ e.literalsInert = true
  | [], _, _, _, _, he, _ => by simp [exprField?] at he
  | (k, v) :: rest, hentries, field, _, _, he, hq => by
    obtain ⟨hv, hrest⟩ : v.nodesFaithful = true ∧ entriesFaithful rest = true := by
      simpa [entriesFaithful] using hentries
    rw [exprField?] at he
    split at he
    · exact Expr.faithful_of_ofValue v hv (Option.some.inj he) hq
    · exact faithful_of_exprField rest hrest he hq
termination_by structural entries => entries

theorem faithful_of_exprsField : ∀ entries : List (Value × Value),
    entriesFaithful entries = true → ∀ {tag field es qs},
      exprsField? tag field entries = some (.ok es) → treesOf es = .ok qs →
        wellFormedAll es = true ∧ inertAll es = true
  | [], _, _, _, _, _, hes, _ => by simp [exprsField?] at hes
  | (k, v) :: rest, hentries, _, _, _, _, hes, hqs => by
    obtain ⟨hv, hrest⟩ : v.nodesFaithful = true ∧ entriesFaithful rest = true := by
      simpa [entriesFaithful] using hentries
    rw [exprsField?] at hes
    split at hes
    · exact faithful_of_exprsOfValue v hv (Option.some.inj hes) hqs
    · exact faithful_of_exprsField rest hrest hes hqs
termination_by structural entries => entries

theorem faithful_of_exprsOfValue : ∀ v : Value, v.nodesFaithful = true → ∀ {tag field es qs},
    exprsOfValue tag field v = .ok es → treesOf es = .ok qs →
      wellFormedAll es = true ∧ inertAll es = true
  | v, hv, tag, field, es, qs, hes, hqs => by
    cases v with
    | list items =>
      rw [exprsOfValue] at hes
      exact faithful_of_exprsOf items (by simpa [Value.nodesFaithful] using hv) hes hqs
    | _ => simp [exprsOfValue] at hes
termination_by structural v => v

theorem faithful_of_argsField : ∀ entries : List (Value × Value), entriesFaithful entries = true →
    ∀ {args fields}, argsField entries = .ok args → argTrees args = .ok fields →
      wellFormedArgs args = true ∧ inertArgs args = true
  | [], _, _, _, hargs, _ => by
    rw [argsField] at hargs
    cases hargs
    simp [wellFormedArgs, inertArgs]
  | (k, v) :: rest, hentries, _, _, hargs, hfields => by
    obtain ⟨hv, hrest⟩ : v.nodesFaithful = true ∧ entriesFaithful rest = true := by
      simpa [entriesFaithful] using hentries
    rw [argsField] at hargs
    split at hargs
    · exact faithful_of_argsOfValue v hv hargs hfields
    · exact faithful_of_argsField rest hrest hargs hfields
termination_by structural entries => entries

theorem faithful_of_argsOfValue : ∀ v : Value, v.nodesFaithful = true → ∀ {args fields},
    argsOfValue v = .ok args → argTrees args = .ok fields →
      wellFormedArgs args = true ∧ inertArgs args = true
  | v, hv, args, fields, hargs, hfields => by
    cases v with
    | map entries =>
      rw [argsOfValue] at hargs
      exact faithful_of_argsOf entries (by simpa [Value.nodesFaithful] using hv) hargs hfields
    | _ =>
      simp only [argsOfValue] at hargs
      split at hargs
      · cases hargs
      · cases hargs
        simp [wellFormedArgs, inertArgs]
termination_by structural v => v

theorem faithful_of_argsOf : ∀ entries : List (Value × Value), entriesFaithful entries = true →
    ∀ {args fields}, argsOf entries = .ok args → argTrees args = .ok fields →
      wellFormedArgs args = true ∧ inertArgs args = true
  | [], _, _, _, hargs, _ => by
    rw [argsOf] at hargs
    cases hargs
    simp [wellFormedArgs, inertArgs]
  | (k, v) :: rest, hentries, _, _, hargs, hfields => by
    obtain ⟨hv, hrest⟩ : v.nodesFaithful = true ∧ entriesFaithful rest = true := by
      simpa [entriesFaithful] using hentries
    rw [argsOf_cons] at hargs
    obtain ⟨a, ha, hargs⟩ := Result.bind_eq_ok.1 hargs
    obtain ⟨others, hothers, hargs⟩ := Result.bind_eq_ok.1 hargs
    cases hargs
    rw [argTrees] at hfields
    obtain ⟨tree, htree, hfields⟩ := Result.bind_eq_ok.1 hfields
    obtain ⟨fields, hfields', -⟩ := Result.bind_eq_ok.1 hfields
    have hothers := faithful_of_argsOf rest hrest hothers hfields'
    have ha : a.wellFormed = true ∧ a.literalsInert = true := by
      rw [readArg] at ha
      by_cases hshape : v.isNodeShape = true
      · rw [if_pos hshape] at ha
        obtain ⟨e, he, rfl⟩ := Result.map_eq_ok.1 ha
        rw [Arg.toValue] at htree
        simpa [Arg.wellFormed, Arg.literalsInert] using Expr.faithful_of_ofValue v hv he htree
      · rw [if_neg hshape] at ha
        cases ha
        simp [Arg.wellFormed, Arg.literalsInert, hshape]
    simp [wellFormedArgs, inertArgs, ha, hothers]
termination_by structural entries => entries

theorem faithful_of_nextField : ∀ entries : List (Value × Value), entriesFaithful entries = true →
    ∀ {next fields}, nextField entries = .ok next → nextFields next = .ok fields →
      wellFormedNext next = true ∧ inertNext next = true
  | [], _, _, _, hnext, _ => by
    rw [nextField] at hnext
    cases hnext
    simp [wellFormedNext, inertNext]
  | (k, v) :: rest, hentries, _, _, hnext, hfields => by
    obtain ⟨hv, hrest⟩ : v.nodesFaithful = true ∧ entriesFaithful rest = true := by
      simpa [entriesFaithful] using hentries
    rw [nextField] at hnext
    split at hnext
    · split at hnext
      · cases hnext
        simp [wellFormedNext, inertNext]
      · obtain ⟨e, he, rfl⟩ := Result.map_eq_ok.1 hnext
        rw [nextFields] at hfields
        obtain ⟨tree, htree, -⟩ := Result.bind_eq_ok.1 hfields
        simpa [wellFormedNext, inertNext] using Expr.faithful_of_ofValue v hv he htree
    · exact faithful_of_nextField rest hrest hnext hfields
termination_by structural entries => entries

end

/-- The tree that a program is written as after it was read: names are spelled in one way only, and
what the program does not use is gone. -/
def Value.normalised (p : Value) : Result Value := Expr.ofValue p >>= Expr.toValue

theorem toValue_bind_ofValue {e : Expr} (h : e.wellFormed = true) :
    (e.toValue >>= Expr.ofValue) = .ok e ↔ e.literalsInert = true := by
  obtain ⟨tree, htree, -, hread⟩ := e.exists_written h
  rw [htree, Result.ok_bind, hread]

theorem ofValue_of_toValue {p q : Value} {e : Expr} (hp : p.nodesFaithful = true)
    (he : Expr.ofValue p = .ok e) (hq : e.toValue = .ok q) : Expr.ofValue q = .ok e := by
  obtain ⟨hwf, hinert⟩ := Expr.faithful_of_ofValue p hp he hq
  have h := (toValue_bind_ofValue hwf).2 hinert
  rwa [hq, Result.ok_bind] at h

/-- Reading undoes writing for the well-formed programs whose literals do not look like programs,
and for no others among them; and reading, writing and reading again is the same as reading once, so
a normalised tree is its own normal form. -/
theorem write_read_roundtrip :
    (∀ e : Expr, e.wellFormed = true →
      ((e.toValue >>= Expr.ofValue) = .ok e ↔ e.literalsInert = true)) ∧
    (∀ (p q : Value) (e : Expr), p.nodesFaithful = true → Expr.ofValue p = .ok e →
      e.toValue = .ok q → Expr.ofValue q = .ok e) ∧
    (∀ p q : Value, p.nodesFaithful = true → p.normalised = .ok q → q.normalised = .ok q) := by
  refine ⟨fun e h => toValue_bind_ofValue h, fun p q e => ofValue_of_toValue, ?_⟩
  intro p q hp h
  obtain ⟨e, he, hq⟩ := Result.bind_eq_ok.1 h
  exact Result.bind_eq_ok.2 ⟨e, ofValue_of_toValue hp he hq, hq⟩

/-- An effect with an expression and a literal among its arguments, which names its answer and goes
on with a definition. -/
def askEffect (raw : Value) : Expr :=
  .effect "ask"
    [(.str "n", .expr (.arithmetic .add [.number (.int 1), .variable "x"])),
      (.str "raw", .literal raw)]
    (some "r") (some (.definition "y" (.variable "r")))

/-- A definition whose name is spelled as a text, where it is written as a variable. -/
def shortDefinition : Value :=
  taggedFields .definition [("key", .str "y"), ("value", variableTree "x")]

theorem write_read_roundtrip_ask :
    ((askEffect (.list [.null])).wellFormed = true ∧
      ((askEffect (.list [.null])).toValue >>= Expr.ofValue) = .ok (askEffect (.list [.null]))) ∧
    ((askEffect (variableTree "x")).wellFormed = true ∧
      ((askEffect (variableTree "x")).toValue >>= Expr.ofValue) ≠
        .ok (askEffect (variableTree "x"))) ∧
    (shortDefinition.nodesFaithful = true ∧
      ∃ q, shortDefinition.normalised = .ok q ∧ q ≠ shortDefinition ∧ q.normalised = .ok q) := by
  refine ⟨⟨rfl, (write_read_roundtrip.1 _ rfl).2 rfl⟩, ⟨rfl, ?_⟩, rfl, _, rfl, ?_, ?_⟩
  · rw [Ne, write_read_roundtrip.1 _ rfl]
    decide
  · simp [shortDefinition, taggedFields, Value.ofFields, variableTree]
  · exact write_read_roundtrip.2.2 shortDefinition _ rfl rfl

end TreeScript
