import Mathlib
import TreeScript.Proofs.RenamedTexts
import TreeScript.Proofs.WireFormat

/-!
# Decoding renamed trees

The program that a renamed tree is, is the program that the tree is, renamed; and where the tree is
none, the renamed one has the same flaw.
-/

namespace TreeScript

section

variable (g : ScopeRef → ScopeRef)

theorem Bindings.getD_rename (entries : Bindings) (name : String) :
    Bindings.getD (rename g entries) name .null = rename g (entries.getD name .null) := by
  unfold Bindings.getD
  rw [Bindings.get?_rename]
  cases Bindings.get? entries name <;> rfl

@[simp]
theorem tagOf?_rename (entries : Bindings) : tagOf? (rename g entries) = tagOf? entries := by
  unfold tagOf?
  rw [Bindings.get?_rename]
  cases Bindings.get? entries "type" with
  | none => rfl
  | some v => cases v <;> rfl

@[simp]
theorem Value.isNodeShape_rename (v : Value) : (rename g v).isNodeShape = v.isNodeShape := by
  cases v with
  | map entries => rw [rename_map, Value.isNodeShape, Value.isNodeShape, tagOf?_rename]
  | _ => rfl

/-- A flaw that shows a value is the same flaw for the renamed value. -/
theorem shownFlaw_rename (α : Type) [Renames α] (v : Value) (flaw : String → Flaw) :
    (do
      let shown ← (rename g v).literalText
      throw (.malformed (flaw shown)) : Result α) =
    rename g (do
      let shown ← v.literalText
      throw (.malformed (flaw shown)) : Result α) := by
  rw [Value.literalText_rename]
  cases v.literalText <;> rfl

theorem requireField_rename (tag : Tag) (field : String) (entries : Bindings) :
    requireField tag field (rename g entries) = rename g (requireField tag field entries) := by
  unfold requireField
  rw [Bindings.get?_rename]
  cases Bindings.get? entries field <;> rfl

/-- What a name is read from: the key of a variable, or the value itself. -/
def namedBy (v : Value) : Value :=
  match v with
  | .map entries =>
    match Bindings.get? entries "type" with
    | some (.str "variable") => Bindings.getD entries "key" .null
    | _ => v
  | _ => v

theorem namedBy_rename (v : Value) : namedBy (rename g v) = rename g (namedBy v) := by
  cases v with
  | map entries =>
    rw [rename_map]
    dsimp only [namedBy]
    rw [Bindings.get?_rename, Bindings.getD_rename, ← rename_map]
    cases Bindings.get? entries "type" with
    | none => rfl
    | some v =>
      cases v with
      | str s =>
        by_cases h : s = "variable"
        · subst h
          rfl
        · simp only [rename_some, rename_str]
          split <;> simp_all
      | _ => rfl
  | _ => rfl

/-- The name that a value is, if it is a text that is not empty. -/
def plainName (place : String) : Value → Result String
  | .str s => if s == "" then throw (.malformed (.name place (Text.quoted s))) else pure s
  | other => do
    let shown ← other.literalText
    throw (.malformed (.name place shown))

theorem nameOf_eq (place : String) (v : Value) : nameOf place v = plainName place (namedBy v) := rfl

theorem plainName_rename (place : String) (v : Value) :
    plainName place (rename g v) = plainName place v := by
  have htext := v.literalText_rename g
  cases v with
  | str s => rfl
  | _ => exact congrArg (· >>= fun shown => throw (.malformed (.name place shown))) htext

theorem nameOf_rename (place : String) (v : Value) :
    nameOf place (rename g v) = nameOf place v := by
  rw [nameOf_eq, namedBy_rename, plainName_rename, nameOf_eq]

theorem numberOf_rename (v : Value) : numberOf (rename g v) = rename g (numberOf v) := by
  have hflaw := shownFlaw_rename g Expr v (.payload Tag.number.name "non-numeric")
  cases v with
  | int | float => rfl
  | _ => exact hflaw

theorem stringOf_rename (v : Value) : stringOf (rename g v) = rename g (stringOf v) := by
  have hflaw := shownFlaw_rename g Expr v (.payload Tag.string.name "non-string")
  cases v with
  | str => rfl
  | _ => exact hflaw

theorem booleanOf_rename (v : Value) : booleanOf (rename g v) = rename g (booleanOf v) := by
  have hflaw := shownFlaw_rename g Expr v (.payload Tag.boolean.name "non-boolean")
  cases v with
  | bool => rfl
  | _ => exact hflaw

theorem operatorOf_rename {Op : Type} (tag : Tag) (ofSymbol? : String → Option Op) (v : Value) :
    operatorOf tag ofSymbol? (rename g v) = operatorOf tag ofSymbol? v := by
  have htext := v.literalText_rename g
  unfold operatorOf
  cases v with
  | str s => rfl
  | _ => rw [htext]; rfl

theorem inputsOf_rename (v : Value) : inputsOf (rename g v) = inputsOf v := by
  cases v with
  | list items =>
    rw [rename_list]
    exact mapM_rename_right g (nameOf_rename g _) items
  | _ => rfl

theorem checkCallee_rename (callee : Expr) :
    checkCallee (rename g callee) = checkCallee callee := by
  cases callee <;> rfl

theorem bindOf_rename (entries : Bindings) : bindOf (rename g entries) = bindOf entries := by
  have hname := fun v => nameOf_rename g "effect.bind" v
  unfold bindOf
  rw [Bindings.getD_rename]
  cases Bindings.getD entries "bind" .null with
  | null => rfl
  | _ => exact congrArg (some <$> ·) (hname _)

theorem requireTag_rename (entries : Bindings) :
    requireTag (rename g entries) = requireTag entries := by
  unfold requireTag
  dsimp only
  rw [Bindings.getD_rename, Value.checkKey_rename, tagOf?_rename, Value.literalText_rename]

theorem orMissing_rename {α : Type} [Renames α] (tag : Tag) (field : String)
    (found : Option (Result α)) :
    orMissing tag field (rename g found) = rename g (orMissing tag field found) := by
  cases found <;> rfl

theorem atLeastTwo_rename (tag : Tag) (operands : List Expr) :
    atLeastTwo tag (rename g operands) = rename g (atLeastTwo tag operands) := by
  unfold atLeastTwo
  rw [length_rename]
  split <;> rfl

theorem readArg_rename {v : Value} (h : Expr.ofValue (rename g v) = rename g (Expr.ofValue v)) :
    readArg (rename g v) = rename g (readArg v) := by
  unfold readArg
  rw [Value.isNodeShape_rename, h]
  split
  next => cases Expr.ofValue v <;> rfl
  next => rfl

mutual

/-- Decoding does not look at references. -/
theorem ofValue_rename : ∀ v : Value, Expr.ofValue (rename g v) = rename g (Expr.ofValue v)
  | .list items => by
    rw [rename_list, Expr.ofValue, Expr.ofValue, exprsOf_rename items]
    cases exprsOf items <;> simp
  | .node e => by
    rw [rename_node, Expr.ofValue, Expr.ofValue]
    rfl
  | .map entries => by
    -- the recursive calls, before the tag decides which fields are read
    have hexpr := exprField?_rename entries
    have hexprs := exprsField?_rename entries
    rw [rename_map, Expr.ofValue, Expr.ofValue, requireTag_rename]
    cases requireTag entries with
    | error failure => rfl
    | ok tag =>
      cases tag with
      | number =>
        simp only [Result.ok_bind, requireField_rename]
        exact (rename_bind g fun v => (numberOf_rename g v).symm).symm
      | string =>
        simp only [Result.ok_bind, requireField_rename]
        exact (rename_bind g fun v => (stringOf_rename g v).symm).symm
      | boolean =>
        simp only [Result.ok_bind, requireField_rename]
        exact (rename_bind g fun v => (booleanOf_rename g v).symm).symm
      | «variable» =>
        simp only [Result.ok_bind, requireField_rename]
        refine (rename_bind g fun v => ?_).symm
        rw [nameOf_rename]
        exact rename_bind_right g fun key => rfl
      | arithmetic =>
        simp only [Result.ok_bind, requireField_rename, hexprs, orMissing_rename]
        refine (rename_bind g fun v => ?_).symm
        rw [operatorOf_rename]
        refine rename_bind_right g fun op => rename_bind g fun operands => ?_
        rw [atLeastTwo_rename]
        exact rename_bind g fun operands => congrArg Except.ok (rename_arithmetic g op operands)
      | comparison =>
        simp only [Result.ok_bind, requireField_rename, hexprs, orMissing_rename]
        refine (rename_bind g fun v => ?_).symm
        rw [operatorOf_rename]
        refine rename_bind_right g fun op => rename_bind g fun operands => ?_
        rw [atLeastTwo_rename]
        exact rename_bind g fun operands => congrArg Except.ok (rename_comparison g op operands)
      | conditional =>
        simp only [Result.ok_bind, hexpr, orMissing_rename]
        refine (rename_bind g fun condition => ?_).symm
        refine rename_bind g fun onTrue => rename_bind g fun onFalse => ?_
        rfl
      | procedure =>
        simp only [Result.ok_bind, requireField_rename, hexpr, orMissing_rename]
        refine (rename_bind g fun v => ?_).symm
        rw [inputsOf_rename]
        refine rename_bind_right g fun inputs => rename_bind g fun body => ?_
        rfl
      | call =>
        simp only [Result.ok_bind, hexpr, hexprs, orMissing_rename]
        refine (rename_bind g fun callee => ?_).symm
        rw [checkCallee_rename]
        refine rename_bind_right g fun _ => rename_bind g fun arguments => ?_
        exact congrArg Except.ok (rename_call g callee arguments)
      | definition =>
        simp only [Result.ok_bind, requireField_rename, hexpr, orMissing_rename]
        refine (rename_bind g fun v => ?_).symm
        rw [nameOf_rename]
        refine rename_bind_right g fun key => rename_bind g fun value => ?_
        rfl
      | effect =>
        simp only [Result.ok_bind, requireField_rename, argsField_rename entries, bindOf_rename,
          nextField_rename entries]
        refine (rename_bind g fun v => ?_).symm
        rw [nameOf_rename]
        refine rename_bind_right g fun name => rename_bind g fun args => ?_
        refine rename_bind_right g fun bind => rename_bind g fun next => ?_
        exact congrArg Except.ok (rename_effect g name args bind next)
  -- the failure tells only the kind of the value, which a renaming keeps
  | .null | .bool _ | .int _ | .float _ | .str _ | .tuple _ | .env _ | .object _ | .set _
  | .bytes _ | .date _ | .datetime _ | .undefined | .closure .. | .literal _ => by
    simp [Expr.ofValue, Value.kindName]
termination_by structural v => v

theorem exprsOf_rename : ∀ vs : List Value, exprsOf (rename g vs) = rename g (exprsOf vs)
  | [] => rfl
  | v :: rest => by
    rw [rename_cons, exprsOf, exprsOf, ofValue_rename v, exprsOf_rename rest]
    cases Expr.ofValue v with
    | error failure => rfl
    | ok e => cases exprsOf rest <;> rfl
termination_by structural vs => vs

theorem exprField?_rename : ∀ (entries : List (Value × Value)) (field : String),
    exprField? field (rename g entries) = rename g (exprField? field entries)
  | [], _ => rfl
  | (k, v) :: rest, field => by
    have hkey : Value.equal (.str field) (rename g k) = Value.equal (.str field) k :=
      Value.equal_rename g g (.str field) k
    rw [rename_cons, rename_pair, exprField?, exprField?, hkey, ofValue_rename v,
      exprField?_rename rest field]
    split <;> rfl
termination_by structural entries => entries

theorem exprsField?_rename : ∀ (entries : List (Value × Value)) (tag : Tag) (field : String),
    exprsField? tag field (rename g entries) = rename g (exprsField? tag field entries)
  | [], _, _ => rfl
  | (k, v) :: rest, tag, field => by
    have hkey : Value.equal (.str field) (rename g k) = Value.equal (.str field) k :=
      Value.equal_rename g g (.str field) k
    rw [rename_cons, rename_pair, exprsField?, exprsField?, hkey, exprsOfValue_rename v tag field,
      exprsField?_rename rest tag field]
    split <;> rfl
termination_by structural entries => entries

theorem exprsOfValue_rename : ∀ (v : Value) (tag : Tag) (field : String),
    exprsOfValue tag field (rename g v) = rename g (exprsOfValue tag field v)
  | v, tag, field => by
    cases v with
    | list items => rw [rename_list, exprsOfValue, exprsOfValue, exprsOf_rename items]
    | _ => simp [exprsOfValue]
termination_by structural v => v

theorem argsField_rename : ∀ entries : List (Value × Value),
    argsField (rename g entries) = rename g (argsField entries)
  | [] => rfl
  | (k, v) :: rest => by
    have hkey : Value.equal (.str "args") (rename g k) = Value.equal (.str "args") k :=
      Value.equal_rename g g (.str "args") k
    rw [rename_cons, rename_pair, argsField, argsField, hkey, argsOfValue_rename v,
      argsField_rename rest]
    split <;> rfl
termination_by structural entries => entries

theorem argsOfValue_rename (v : Value) : argsOfValue (rename g v) = rename g (argsOfValue v) := by
  have hother : (if (rename g v).truth then throw (.malformed .arguments) else pure [] :
      Result (List (Value × Arg))) =
      rename g (if v.truth then throw (.malformed .arguments) else pure []) := by
    rw [Value.truth_rename]
    split <;> rfl
  cases v with
  | map entries => rw [rename_map, argsOfValue, argsOfValue, argsOf_rename entries]
  | _ => exact hother
termination_by structural v

theorem argsOf_rename : ∀ entries : List (Value × Value),
    argsOf (rename g entries) = rename g (argsOf entries)
  | [] => rfl
  | (k, v) :: rest => by
    have harg := readArg_rename g (ofValue_rename v)
    rw [rename_cons, rename_pair, argsOf_cons, argsOf_cons, harg, argsOf_rename rest]
    refine (rename_bind g fun a => ?_).symm
    refine rename_bind g fun others => ?_
    rfl
termination_by structural entries => entries

theorem nextField_rename : ∀ entries : List (Value × Value),
    nextField (rename g entries) = rename g (nextField entries)
  | [] => rfl
  | (k, v) :: rest => by
    have hkey : Value.equal (.str "then") (rename g k) = Value.equal (.str "then") k :=
      Value.equal_rename g g (.str "then") k
    rw [rename_cons, rename_pair, nextField, nextField, hkey, Value.isNull_rename, ofValue_rename v,
      nextField_rename rest]
    split
    next =>
      split
      next => rfl
      next => cases Expr.ofValue v <;> rfl
    next => rfl
termination_by structural entries => entries

end

end

end TreeScript
