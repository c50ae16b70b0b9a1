import TreeScript.Proofs.RenamedValues
import TreeScript.Proofs.TextFailures

/-!
# Texts of renamed values

No text shows the reference of a closure: a renamed value has the same texts as the value itself, in
each of the ways in which values are shown, and the tree of a renamed program is its tree, renamed.
-/

namespace TreeScript

section

variable (g : ScopeRef → ScopeRef)

theorem namesOf_rename (bs : Bindings) : namesOf (rename g bs) = namesOf bs := by
  suffices h : ∀ i, namesOf.go i (rename g bs) = namesOf.go i bs from h 0
  induction bs with
  | nil => exact fun i => rfl
  | cons b rest ih =>
    intro i
    obtain ⟨k, v⟩ := b
    have hkind := k.qualifiedKindName_rename g
    rw [rename_cons, rename_pair]
    cases k with
    | str s => simp only [rename_str, namesOf.go, ih]
    | _ => exact congrArg (fun kind => Except.error (Failure.type (.notAName i kind))) hkind

mutual

theorem Value.literalText_rename : ∀ v : Value, (rename g v).literalText = v.literalText
  | .list items => by
    rw [rename_list, Value.literalText, Value.literalText, literalTexts_rename items]
  | .tuple items => by
    rw [rename_tuple, Value.literalText, Value.literalText, literalTexts_rename items]
  | .map entries => by
    rw [rename_map, Value.literalText, Value.literalText, entryTexts_rename entries]
  | .set items => by
    rw [rename_set, Value.literalText, Value.literalText, literalTexts_rename items]
  | .node e => by
    rw [rename_node, Value.literalText, Value.literalText, Expr.literalText_rename e]
  | .literal v => by
    rw [rename_literal, Value.literalText, Value.literalText, Value.literalText_rename v]
  | .env bs => by rw [rename_env, Value.literalText, Value.literalText, namesOf_rename]
  | .object attributes => by
    rw [rename_object, Value.literalText, Value.literalText, attributeTexts_rename attributes]
  | .closure _ inputs _ => by rw [rename_closure, Value.literalText, Value.literalText]
  | .null | .bool _ | .int _ | .float _ | .str _ | .bytes _ | .date _ | .datetime _
  | .undefined => rfl
termination_by structural v => v

theorem literalTexts_rename : ∀ vs : List Value, literalTexts (rename g vs) = literalTexts vs
  | [] => rfl
  | v :: rest => by
    rw [rename_cons, literalTexts, literalTexts, Value.literalText_rename v,
      literalTexts_rename rest]
termination_by structural vs => vs

theorem entryTexts_rename : ∀ es : List (Value × Value),
    entryTexts (rename g es) = entryTexts es
  | [] => rfl
  | (k, v) :: rest => by
    rw [rename_cons, rename_pair, entryTexts, entryTexts, Value.literalText_rename k,
      Value.literalText_rename v, entryTexts_rename rest]
termination_by structural es => es

theorem attributeTexts_rename : ∀ es : List (Value × Value),
    attributeTexts (rename g es) = attributeTexts es
  | [] => rfl
  | (k, v) :: rest => by
    have hname : attributeName (rename g k) = attributeName k := by
      have hk := Value.literalText_rename k
      cases k with
      | str s => rfl
      | _ => exact hk
    rw [rename_cons, rename_pair, attributeTexts_cons, attributeTexts_cons, hname,
      Value.literalText_rename v, attributeTexts_rename rest]
termination_by structural es => es

theorem Expr.literalText_rename : ∀ e : Expr, (rename g e).literalText = e.literalText
  | .number _ | .string _ | .boolean _ | .variable _ => rfl
  | .arithmetic _ operands => by
    rw [rename_arithmetic, Expr.literalText, Expr.literalText, exprTexts_rename operands]
  | .comparison _ operands => by
    rw [rename_comparison, Expr.literalText, Expr.literalText, exprTexts_rename operands]
  | .conditional condition onTrue onFalse => by
    rw [rename_conditional, Expr.literalText, Expr.literalText, Expr.literalText_rename condition,
      Expr.literalText_rename onTrue, Expr.literalText_rename onFalse]
  | .procedure _ body => by
    rw [rename_procedure, Expr.literalText, Expr.literalText, Expr.literalText_rename body]
  | .call callee arguments => by
    rw [rename_call, Expr.literalText, Expr.literalText, Expr.literalText_rename callee,
      exprTexts_rename arguments]
  | .definition _ value => by
    rw [rename_definition, Expr.literalText, Expr.literalText, Expr.literalText_rename value]
  | .effect _ args none next | .effect _ args (some _) next => by
    rw [rename_effect, Expr.literalText, Expr.literalText, argTexts_rename args,
      nextText_rename next]
  | .block items => by
    rw [rename_block, Expr.literalText, Expr.literalText, exprTexts_rename items]
termination_by structural e => e

theorem exprTexts_rename : ∀ es : List Expr, exprTexts (rename g es) = exprTexts es
  | [] => rfl
  | e :: rest => by
    rw [rename_cons, exprTexts, exprTexts, Expr.literalText_rename e, exprTexts_rename rest]
termination_by structural es => es

theorem nextText_rename : ∀ next : Option Expr, nextText (rename g next) = nextText next
  | none => rfl
  | some e => by rw [rename_some, nextText, nextText, Expr.literalText_rename e]
termination_by structural next => next

theorem argTexts_rename : ∀ args : List (Value × Arg), argTexts (rename g args) = argTexts args
  | [] => rfl
  | (k, a) :: rest => by
    rw [rename_cons, rename_pair, argTexts, argTexts, Value.literalText_rename k,
      Arg.literalText_rename a, argTexts_rename rest]
termination_by structural args => args

theorem Arg.literalText_rename : ∀ a : Arg, (rename g a).literalText = a.literalText
  | .literal v => by
    rw [rename_argLiteral, Arg.literalText, Arg.literalText, Value.literalText_rename v]
  | .expr e => by rw [rename_argExpr, Arg.literalText, Arg.literalText, Expr.literalText_rename e]
termination_by structural a => a

end

theorem Value.text_rename (v : Value) : (rename g v).text = v.text := by
  have h := v.literalText_rename g
  cases v with
  | str | date | datetime => rfl
  | _ => exact h

/-! ## Trees and documents -/

theorem rename_ofFields (fields : List (String × Value)) :
    rename g (Value.ofFields fields) = .ofFields (rename g fields) := by
  rw [Value.ofFields, rename_map, Value.ofFields]
  refine congrArg Value.map ?_
  induction fields with
  | nil => rfl
  | cons field rest ih =>
    rw [List.map_cons, rename_cons, ih]
    rfl

theorem rename_taggedFields (tag : Tag) (fields : List (String × Value)) :
    rename g (taggedFields tag fields) = taggedFields tag (rename g fields) :=
  rename_ofFields g (("type", .str tag.name) :: fields)

theorem rename_variableTree (key : String) : rename g (variableTree key) = variableTree key :=
  rename_taggedFields g .variable [("key", .str key)]

theorem rename_inputs (inputs : List String) :
    rename g (inputs.map Value.str) = inputs.map Value.str := by
  show (inputs.map Value.str).map (rename g) = _
  rw [List.map_map]
  rfl

theorem rename_bindFields (bind : Option String) :
    rename g (bindFields bind) = bindFields bind := by
  cases bind <;> rfl

mutual

/-- The tree of a renamed program. -/
theorem Expr.toValue_rename : ∀ e : Expr, (rename g e).toValue = rename g e.toValue
  | .number n => by cases n <;> rfl
  | .string _ | .boolean _ | .variable _ => rfl
  | .arithmetic op operands => by
    rw [rename_arithmetic, Expr.toValue, Expr.toValue, treesOf_rename operands]
    cases treesOf operands with
    | error failure => rfl
    | ok trees => simp [rename_taggedFields]
  | .comparison op operands => by
    rw [rename_comparison, Expr.toValue, Expr.toValue, treesOf_rename operands]
    cases treesOf operands with
    | error failure => rfl
    | ok trees => simp [rename_taggedFields]
  | .conditional condition onTrue onFalse => by
    rw [rename_conditional, Expr.toValue, Expr.toValue, Expr.toValue_rename condition,
      Expr.toValue_rename onTrue, Expr.toValue_rename onFalse]
    cases condition.toValue with
    | error failure => rfl
    | ok c =>
      cases onTrue.toValue with
      | error failure => rfl
      | ok t =>
        cases onFalse.toValue with
        | error failure => rfl
        | ok f => simp [rename_taggedFields]
  | .procedure inputs body => by
    rw [rename_procedure, Expr.toValue, Expr.toValue, Expr.toValue_rename body]
    cases body.toValue with
    | error failure => rfl
    | ok b => simp [rename_taggedFields, rename_inputs]
  | .call callee arguments => by
    rw [rename_call, Expr.toValue, Expr.toValue, Expr.toValue_rename callee,
      treesOf_rename arguments]
    cases callee.toValue with
    | error failure => rfl
    | ok p =>
      cases treesOf arguments with
      | error failure => rfl
      | ok trees => simp [rename_taggedFields]
  | .definition key value => by
    rw [rename_definition, Expr.toValue, Expr.toValue, Expr.toValue_rename value]
    cases value.toValue with
    | error failure => rfl
    | ok v => simp [rename_taggedFields, rename_variableTree]
  | .effect name args bind next => by
    rw [rename_effect, Expr.toValue, Expr.toValue, argTrees_rename args, nextFields_rename next]
    cases argTrees args with
    | error failure => rfl
    | ok fields =>
      cases nextFields next with
      | error failure => rfl
      | ok continued => simp [rename_taggedFields, rename_bindFields]
  | .block items => by
    rw [rename_block, Expr.toValue, Expr.toValue, exprTexts_rename]
    cases exprTexts items <;> rfl
termination_by structural e => e

theorem treesOf_rename : ∀ es : List Expr, treesOf (rename g es) = rename g (treesOf es)
  | [] => rfl
  | e :: rest => by
    rw [rename_cons, treesOf, treesOf, Expr.toValue_rename e, treesOf_rename rest]
    cases e.toValue with
    | error failure => rfl
    | ok tree => cases treesOf rest <;> rfl
termination_by structural es => es

theorem argTrees_rename : ∀ args : List (Value × Arg),
    argTrees (rename g args) = rename g (argTrees args)
  | [] => rfl
  | (k, a) :: rest => by
    rw [rename_cons, rename_pair, argTrees, argTrees, Arg.toValue_rename a, argTrees_rename rest]
    cases a.toValue with
    | error failure => rfl
    | ok tree => cases argTrees rest <;> rfl
termination_by structural args => args

theorem Arg.toValue_rename : ∀ a : Arg, (rename g a).toValue = rename g a.toValue
  | .literal v => by
    rw [rename_argLiteral, Arg.toValue, Arg.toValue]
    rfl
  | .expr e => by rw [rename_argExpr, Arg.toValue, Arg.toValue, Expr.toValue_rename e]
termination_by structural a => a

theorem nextFields_rename : ∀ next : Option Expr,
    nextFields (rename g next) = rename g (nextFields next)
  | none => rfl
  | some e => by
    rw [rename_some, nextFields, nextFields, Expr.toValue_rename e]
    cases e.toValue <;> rfl
termination_by structural next => next

end

mutual

theorem Value.plain_rename : ∀ v : Value, (rename g v).plain = rename g v.plain
  | .closure ref inputs body => by
    rw [rename_closure, Value.plain, Value.plain, ← rename_procedure, Expr.toValue_rename]
    cases (Expr.procedure inputs body).toValue with
    | error failure => rfl
    | ok tree => simp [rename_ofFields]
  | .env bindings => by
    rw [rename_env, Value.plain, Value.plain, plainBindings_rename bindings]
    cases plainBindings bindings <;> simp
  | .map entries => by
    rw [rename_map, Value.plain, Value.plain, plainEntries_rename entries]
    cases plainEntries entries <;> simp [Bindings.ofPairs_rename]
  | .list items => by
    rw [rename_list, Value.plain, Value.plain, plainItems_rename items]
    cases plainItems items <;> simp
  | .tuple items => by
    rw [rename_tuple, Value.plain, Value.plain, plainItems_rename items]
    cases plainItems items <;> simp
  | .null | .bool _ | .int _ | .float _ | .str _ | .bytes _ | .date _ | .datetime _ | .undefined
  | .set _ | .object _ | .node _ | .literal _ => by
    simp [Value.plain]
termination_by structural v => v

theorem plainItems_rename : ∀ vs : List Value, plainItems (rename g vs) = rename g (plainItems vs)
  | [] => rfl
  | v :: rest => by
    rw [rename_cons, plainItems, plainItems, Value.plain_rename v, plainItems_rename rest]
    cases v.plain with
    | error failure => rfl
    | ok w => cases plainItems rest <;> rfl
termination_by structural vs => vs

theorem plainEntries_rename : ∀ es : List (Value × Value),
    plainEntries (rename g es) = rename g (plainEntries es)
  | [] => rfl
  | (k, v) :: rest => by
    rw [rename_cons, rename_pair, plainEntries, plainEntries, Value.text_rename,
      Value.plain_rename v, plainEntries_rename rest]
    cases k.text with
    | error failure => rfl
    | ok key =>
      cases v.plain with
      | error failure => rfl
      | ok w => cases plainEntries rest <;> rfl
termination_by structural es => es

theorem plainBindings_rename : ∀ es : List (Value × Value),
    plainBindings (rename g es) = rename g (plainBindings es)
  | [] => rfl
  | (k, v) :: rest => by
    rw [rename_cons, rename_pair, plainBindings, plainBindings, Value.plain_rename v,
      plainBindings_rename rest]
    cases v.plain with
    | error failure => rfl
    | ok w => cases plainBindings rest <;> rfl
termination_by structural es => es

end

namespace Json

theorem keyText_rename (style : Style) (k : Value) :
    keyText style (rename g k) = keyText style k := by
  cases k with
  | node e => simp [keyText, Value.kindName, Value.qualifiedKindName]
  | _ => rfl

mutual

theorem writeAt_rename (style : Style) : ∀ (depth : Nat) (v : Value),
    writeAt style depth (rename g v) = writeAt style depth v
  | depth, .list items => by
    rw [rename_list, writeAt, writeAt, writeItems_rename style (depth + 1) items]
  | depth, .tuple items => by
    rw [rename_tuple, writeAt, writeAt, writeItems_rename style (depth + 1) items]
  | depth, .map entries => by
    rw [rename_map, writeAt, writeAt, writeEntries_rename style (depth + 1) entries]
  | _, .node e => by simp [writeAt, Value.kindName]
  | _, .null | _, .bool _ | _, .int _ | _, .float _ | _, .str _ | _, .bytes _ | _, .date _
  | _, .datetime _ | _, .undefined | _, .set _ | _, .object _ | _, .literal _ | _, .closure ..
  | _, .env _ => rfl
termination_by structural _ v => v

theorem writeItems_rename (style : Style) : ∀ (depth : Nat) (vs : List Value),
    writeItems style depth (rename g vs) = writeItems style depth vs
  | _, [] => rfl
  | depth, v :: rest => by
    rw [rename_cons, writeItems, writeItems, writeAt_rename style depth v,
      writeItems_rename style depth rest]
termination_by structural _ vs => vs

theorem writeEntries_rename (style : Style) : ∀ (depth : Nat) (es : List (Value × Value)),
    writeEntries style depth (rename g es) = writeEntries style depth es
  | _, [] => rfl
  | depth, (k, v) :: rest => by
    rw [rename_cons, rename_pair, writeEntries, writeEntries, keyText_rename,
      writeAt_rename style depth v, writeEntries_rename style depth rest]
termination_by structural _ es => es

end

end Json

/-! ## What a user is shown -/

theorem Value.shownAsJson_rename (v : Value) : (rename g v).shownAsJson = v.shownAsJson := by
  unfold Value.shownAsJson
  rw [Value.plain_rename]
  cases v.plain with
  | error failure => rfl
  | ok plained => exact Json.writeAt_rename g .compact 0 plained

mutual

theorem Value.shown_rename : ∀ v : Value, (rename g v).shown = v.shown
  | .env bindings => by
    rw [rename_env, Value.shown, Value.shown, shownBindings_rename bindings]
  | .node e => by
    rw [rename_node, Value.shown, Value.shown, Expr.toValue_rename]
    cases e.toValue with
    | error failure => rfl
    | ok tree => exact Json.writeAt_rename g .compact 0 tree
  | .list items => by
    have h := Value.shownAsJson_rename g (.list items)
    rwa [rename_list] at h ⊢
  | .tuple items => by
    have h := Value.shownAsJson_rename g (.tuple items)
    rwa [rename_tuple] at h ⊢
  | .map entries => by
    have h := Value.shownAsJson_rename g (.map entries)
    rwa [rename_map] at h ⊢
  | .set items => Value.text_rename g (.set items)
  | .object attributes => Value.text_rename g (.object attributes)
  | .literal v => Value.text_rename g (.literal v)
  | .undefined | .null | .bool _ | .int _ | .float _ | .str _ | .closure .. | .bytes _ | .date _
  | .datetime _ => rfl
termination_by structural v => v

theorem shownBindings_rename : ∀ es : List (Value × Value),
    shownBindings (rename g es) = shownBindings es
  | [] => rfl
  | (k, v) :: rest => by
    rw [rename_cons, rename_pair, shownBindings, shownBindings, Value.text_rename,
      Value.shown_rename v, shownBindings_rename rest]
termination_by structural es => es

end

theorem Value.brief_rename (v : Value) : (rename g v).brief = v.brief := by
  have h := v.shown_rename g
  cases v with
  | list items => simp [Value.brief]
  | closure | map => rfl
  | _ => exact h

theorem Frame.text_rename (frame : Frame) : (rename g frame).text = frame.text := by
  have hargs : (rename g frame.args).mapM Value.brief = frame.args.mapM Value.brief :=
    mapM_rename_right g (Value.brief_rename g) frame.args
  unfold Frame.text
  rw [show (rename g frame).args = rename g frame.args from rfl, hargs]
  rfl

theorem stackText_rename (calls : List Frame) : stackText (rename g calls) = stackText calls := by
  have hframes : (rename g calls).mapM Frame.text = calls.mapM Frame.text :=
    mapM_rename_right g (Frame.text_rename g) calls
  unfold stackText
  rw [isEmpty_rename, hframes]

end

end TreeScript
