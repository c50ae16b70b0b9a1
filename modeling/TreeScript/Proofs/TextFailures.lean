import TreeScript.Program.Shown
import TreeScript.Proofs.Basic

/-!
# When a value has no text

Showing a value fails for one reason only, in each of the ways in which values are shown: a part of
it has the wrong kind. For `Value.literalText` this part is an environment, and its names are not
all texts (`literalText_fails`).
-/

namespace TreeScript

/-- The names of an environment are not all texts. -/
def Failure.IsNameFault (failure : Failure) : Prop :=
  ∃ index found, failure = .type (.notAName index found)

/-- A value has the wrong kind. -/
def Failure.IsTypeFault (failure : Failure) : Prop := ∃ fault, failure = .type fault

theorem Failure.IsNameFault.isTypeFault {failure : Failure} (h : failure.IsNameFault) :
    failure.IsTypeFault := by
  obtain ⟨index, found, h⟩ := h
  exact ⟨_, h⟩

open Result.FailsWith (pure throw bind)

theorem namesOf_fails (bs : Bindings) : (namesOf bs).FailsWith Failure.IsNameFault := by
  suffices h : ∀ i, (namesOf.go i bs).FailsWith Failure.IsNameFault from h 0
  induction bs with
  | nil => exact fun i => pure _
  | cons b rest ih =>
    intro i
    obtain ⟨k, v⟩ := b
    cases k with
    | str s => exact (ih (i + 1)).map _
    | _ => exact throw ⟨_, _, rfl⟩

/-- The name of an attribute as it is shown. -/
def attributeName : Value → Result String
  | .str s => Pure.pure s
  | other => other.literalText

theorem attributeTexts_cons (k v : Value) (rest : Bindings) :
    attributeTexts ((k, v) :: rest) = (do
      let name ← attributeName k
      let value ← v.literalText
      let others ← attributeTexts rest
      Pure.pure ((name ++ "=" ++ value) :: others)) := by
  cases k <;> simp only [attributeTexts, attributeName, pure_bind]

mutual

theorem Value.literalText_fails : ∀ v : Value, v.literalText.FailsWith Failure.IsNameFault
  | .list items => by
    rw [Value.literalText]
    exact (literalTexts_fails items).bind fun _ _ => pure _
  | .tuple items => by
    rw [Value.literalText]
    exact (literalTexts_fails items).bind fun _ _ => pure _
  | .map entries => by
    rw [Value.literalText]
    exact (entryTexts_fails entries).bind fun _ _ => pure _
  | .set items => by
    rw [Value.literalText]
    exact (literalTexts_fails items).bind fun _ _ => pure _
  | .node e => by
    rw [Value.literalText]
    exact Expr.literalText_fails e
  | .literal v => by
    rw [Value.literalText]
    exact (Value.literalText_fails v).bind fun _ _ => pure _
  | .env bs => by
    rw [Value.literalText]
    exact (namesOf_fails bs).bind fun _ _ => pure _
  | .object attributes => by
    rw [Value.literalText]
    exact (attributeTexts_fails attributes).bind fun _ _ => pure _
  | .null | .bool _ | .int _ | .float _ | .str _ | .bytes _ | .date _ | .datetime _ | .undefined
  | .closure .. => by
    rw [Value.literalText]
    exact pure _
termination_by structural v => v

theorem literalTexts_fails : ∀ vs : List Value, (literalTexts vs).FailsWith Failure.IsNameFault
  | [] => by
    rw [literalTexts]
    exact pure _
  | v :: rest => by
    rw [literalTexts]
    exact (Value.literalText_fails v).bind fun _ _ =>
      (literalTexts_fails rest).bind fun _ _ => pure _
termination_by structural vs => vs

theorem entryTexts_fails : ∀ es : List (Value × Value),
    (entryTexts es).FailsWith Failure.IsNameFault
  | [] => by
    rw [entryTexts]
    exact pure _
  | (k, v) :: rest => by
    rw [entryTexts]
    exact (Value.literalText_fails k).bind fun _ _ => (Value.literalText_fails v).bind fun _ _ =>
      (entryTexts_fails rest).bind fun _ _ => pure _
termination_by structural es => es

theorem attributeTexts_fails : ∀ es : List (Value × Value),
    (attributeTexts es).FailsWith Failure.IsNameFault
  | [] => by
    rw [attributeTexts]
    exact pure _
  | (k, v) :: rest => by
    rw [attributeTexts_cons]
    have hname : (attributeName k).FailsWith Failure.IsNameFault := by
      unfold attributeName
      split
      next => exact pure _
      next => exact Value.literalText_fails k
    exact hname.bind fun _ _ => (Value.literalText_fails v).bind fun _ _ =>
      (attributeTexts_fails rest).bind fun _ _ => pure _
termination_by structural es => es

theorem Expr.literalText_fails : ∀ e : Expr, e.literalText.FailsWith Failure.IsNameFault
  | .number _ | .string _ | .boolean _ | .variable _ => by
    rw [Expr.literalText]
    exact pure _
  | .arithmetic _ operands => by
    rw [Expr.literalText]
    exact (exprTexts_fails operands).bind fun _ _ => pure _
  | .comparison _ operands => by
    rw [Expr.literalText]
    exact (exprTexts_fails operands).bind fun _ _ => pure _
  | .conditional condition onTrue onFalse => by
    rw [Expr.literalText]
    exact (Expr.literalText_fails condition).bind fun _ _ =>
      (Expr.literalText_fails onTrue).bind fun _ _ =>
        (Expr.literalText_fails onFalse).bind fun _ _ => pure _
  | .procedure _ body => by
    rw [Expr.literalText]
    exact (Expr.literalText_fails body).bind fun _ _ => pure _
  | .call callee arguments => by
    rw [Expr.literalText]
    exact (Expr.literalText_fails callee).bind fun _ _ =>
      (exprTexts_fails arguments).bind fun _ _ => pure _
  | .definition _ value => by
    rw [Expr.literalText]
    exact (Expr.literalText_fails value).bind fun _ _ => pure _
  | .effect _ args none next | .effect _ args (some _) next => by
    rw [Expr.literalText]
    exact (argTexts_fails args).bind fun _ _ => (nextText_fails next).bind fun _ _ => pure _
  | .block items => by
    rw [Expr.literalText]
    exact (exprTexts_fails items).bind fun _ _ => pure _
termination_by structural e => e

theorem exprTexts_fails : ∀ es : List Expr, (exprTexts es).FailsWith Failure.IsNameFault
  | [] => by
    rw [exprTexts]
    exact pure _
  | e :: rest => by
    rw [exprTexts]
    exact (Expr.literalText_fails e).bind fun _ _ => (exprTexts_fails rest).bind fun _ _ => pure _
termination_by structural es => es

theorem nextText_fails : ∀ next : Option Expr, (nextText next).FailsWith Failure.IsNameFault
  | none => by
    rw [nextText]
    exact pure _
  | some e => by
    rw [nextText]
    exact (Expr.literalText_fails e).bind fun _ _ => pure _
termination_by structural next => next

theorem argTexts_fails : ∀ args : List (Value × Arg),
    (argTexts args).FailsWith Failure.IsNameFault
  | [] => by
    rw [argTexts]
    exact pure _
  | (k, a) :: rest => by
    rw [argTexts]
    exact (Value.literalText_fails k).bind fun _ _ => (Arg.literalText_fails a).bind fun _ _ =>
      (argTexts_fails rest).bind fun _ _ => pure _
termination_by structural args => args

theorem Arg.literalText_fails : ∀ a : Arg, a.literalText.FailsWith Failure.IsNameFault
  | .literal v => by
    rw [Arg.literalText]
    exact (Value.literalText_fails v).bind fun _ _ => pure _
  | .expr e => by
    rw [Arg.literalText]
    exact Expr.literalText_fails e
termination_by structural a => a

end

theorem Value.text_fails (v : Value) : v.text.FailsWith Failure.IsNameFault := by
  unfold Value.text
  split
  next => exact pure _
  next => exact pure _
  next => exact pure _
  next => exact v.literalText_fails

/-! ## Trees and documents -/

mutual

theorem Expr.toValue_fails : ∀ e : Expr, e.toValue.FailsWith Failure.IsTypeFault
  | .number _ | .string _ | .boolean _ | .variable _ => by
    rw [Expr.toValue]
    exact pure _
  | .arithmetic _ operands => by
    rw [Expr.toValue]
    exact (treesOf_fails operands).bind fun _ _ => pure _
  | .comparison _ operands => by
    rw [Expr.toValue]
    exact (treesOf_fails operands).bind fun _ _ => pure _
  | .conditional condition onTrue onFalse => by
    rw [Expr.toValue]
    exact (Expr.toValue_fails condition).bind fun _ _ => (Expr.toValue_fails onTrue).bind fun _ _ =>
      (Expr.toValue_fails onFalse).bind fun _ _ => pure _
  | .procedure _ body => by
    rw [Expr.toValue]
    exact (Expr.toValue_fails body).bind fun _ _ => pure _
  | .call callee arguments => by
    rw [Expr.toValue]
    exact (Expr.toValue_fails callee).bind fun _ _ =>
      (treesOf_fails arguments).bind fun _ _ => pure _
  | .definition _ value => by
    rw [Expr.toValue]
    exact (Expr.toValue_fails value).bind fun _ _ => pure _
  | .effect _ args _ next => by
    rw [Expr.toValue]
    exact (argTrees_fails args).bind fun _ _ => (nextFields_fails next).bind fun _ _ => pure _
  | .block items => by
    rw [Expr.toValue]
    have hitems := (exprTexts_fails items).imp fun _ => Failure.IsNameFault.isTypeFault
    exact hitems.bind fun _ _ => throw ⟨_, rfl⟩
termination_by structural e => e

theorem treesOf_fails : ∀ es : List Expr, (treesOf es).FailsWith Failure.IsTypeFault
  | [] => by
    rw [treesOf]
    exact pure _
  | e :: rest => by
    rw [treesOf]
    exact (Expr.toValue_fails e).bind fun _ _ => (treesOf_fails rest).bind fun _ _ => pure _
termination_by structural es => es

theorem argTrees_fails : ∀ args : List (Value × Arg), (argTrees args).FailsWith Failure.IsTypeFault
  | [] => by
    rw [argTrees]
    exact pure _
  | (_, a) :: rest => by
    rw [argTrees]
    exact (Arg.toValue_fails a).bind fun _ _ => (argTrees_fails rest).bind fun _ _ => pure _
termination_by structural args => args

theorem Arg.toValue_fails : ∀ a : Arg, a.toValue.FailsWith Failure.IsTypeFault
  | .literal _ => by
    rw [Arg.toValue]
    exact pure _
  | .expr e => by
    rw [Arg.toValue]
    exact Expr.toValue_fails e
termination_by structural a => a

theorem nextFields_fails : ∀ next : Option Expr, (nextFields next).FailsWith Failure.IsTypeFault
  | none => by
    rw [nextFields]
    exact pure _
  | some e => by
    rw [nextFields]
    exact (Expr.toValue_fails e).bind fun _ _ => pure _
termination_by structural next => next

end

mutual

theorem Value.plain_fails : ∀ v : Value, v.plain.FailsWith Failure.IsTypeFault
  | .closure _ inputs body => by
    rw [Value.plain]
    exact (Expr.toValue_fails (.procedure inputs body)).bind fun _ _ => pure _
  | .env bindings => by
    rw [Value.plain]
    exact (plainBindings_fails bindings).bind fun _ _ => pure _
  | .map entries => by
    rw [Value.plain]
    exact (plainEntries_fails entries).bind fun _ _ => pure _
  | .list items => by
    rw [Value.plain]
    exact (plainItems_fails items).bind fun _ _ => pure _
  | .tuple items => by
    rw [Value.plain]
    exact (plainItems_fails items).bind fun _ _ => pure _
  | .null | .bool _ | .int _ | .float _ | .str _ | .bytes _ | .date _ | .datetime _ | .undefined
  | .set _ | .object _ | .node _ | .literal _ => by
    simp only [Value.plain]
    exact pure _
termination_by structural v => v

theorem plainItems_fails : ∀ vs : List Value, (plainItems vs).FailsWith Failure.IsTypeFault
  | [] => by
    rw [plainItems]
    exact pure _
  | v :: rest => by
    rw [plainItems]
    exact (Value.plain_fails v).bind fun _ _ => (plainItems_fails rest).bind fun _ _ => pure _
termination_by structural vs => vs

theorem plainEntries_fails : ∀ es : List (Value × Value),
    (plainEntries es).FailsWith Failure.IsTypeFault
  | [] => by
    rw [plainEntries]
    exact pure _
  | (k, v) :: rest => by
    rw [plainEntries]
    have hk := k.text_fails.imp fun _ => Failure.IsNameFault.isTypeFault
    exact hk.bind fun _ _ => (Value.plain_fails v).bind fun _ _ =>
      (plainEntries_fails rest).bind fun _ _ => pure _
termination_by structural es => es

theorem plainBindings_fails : ∀ es : List (Value × Value),
    (plainBindings es).FailsWith Failure.IsTypeFault
  | [] => by
    rw [plainBindings]
    exact pure _
  | (_, v) :: rest => by
    rw [plainBindings]
    exact (Value.plain_fails v).bind fun _ _ => (plainBindings_fails rest).bind fun _ _ => pure _
termination_by structural es => es

end

namespace Json

theorem keyText_fails (style : Style) (k : Value) :
    (keyText style k).FailsWith Failure.IsTypeFault := by
  cases k with
  | str | float | bool | null | int => exact pure _
  | _ => exact throw ⟨_, rfl⟩

mutual

theorem writeAt_fails (style : Style) : ∀ (depth : Nat) (v : Value),
    (writeAt style depth v).FailsWith Failure.IsTypeFault
  | depth, .list items => by
    rw [writeAt]
    exact (writeItems_fails style (depth + 1) items).bind fun _ _ => pure _
  | depth, .tuple items => by
    rw [writeAt]
    exact (writeItems_fails style (depth + 1) items).bind fun _ _ => pure _
  | depth, .map entries => by
    rw [writeAt]
    exact (writeEntries_fails style (depth + 1) entries).bind fun _ _ => pure _
  | _, .null | _, .bool _ | _, .int _ | _, .float _ | _, .str _ => by
    rw [writeAt]
    exact pure _
  | _, .bytes _ | _, .date _ | _, .datetime _ | _, .undefined | _, .set _ | _, .object _
  | _, .node _ | _, .literal _ | _, .closure .. | _, .env _ => by
    simp only [writeAt]
    exact throw ⟨_, rfl⟩
termination_by structural _ v => v

theorem writeItems_fails (style : Style) : ∀ (depth : Nat) (vs : List Value),
    (writeItems style depth vs).FailsWith Failure.IsTypeFault
  | _, [] => by
    rw [writeItems]
    exact pure _
  | depth, v :: rest => by
    rw [writeItems]
    exact (writeAt_fails style depth v).bind fun _ _ =>
      (writeItems_fails style depth rest).bind fun _ _ => pure _
termination_by structural _ vs => vs

theorem writeEntries_fails (style : Style) : ∀ (depth : Nat) (es : List (Value × Value)),
    (writeEntries style depth es).FailsWith Failure.IsTypeFault
  | _, [] => by
    rw [writeEntries]
    exact pure _
  | depth, (k, v) :: rest => by
    rw [writeEntries]
    exact (keyText_fails style k).bind fun _ _ => (writeAt_fails style depth v).bind fun _ _ =>
      (writeEntries_fails style depth rest).bind fun _ _ => pure _
termination_by structural _ es => es

end

end Json

/-! ## What a user is shown -/

theorem Value.shownAsJson_fails (v : Value) : v.shownAsJson.FailsWith Failure.IsTypeFault :=
  v.plain_fails.bind fun plained _ => Json.writeAt_fails .compact 0 plained

mutual

theorem Value.shown_fails : ∀ v : Value, v.shown.FailsWith Failure.IsTypeFault
  | .env bindings => by
    rw [Value.shown]
    exact (shownBindings_fails bindings).bind fun _ _ => pure _
  | .node e => by
    rw [Value.shown]
    exact e.toValue_fails.bind fun tree _ => Json.writeAt_fails .compact 0 tree
  | .list items => by
    rw [Value.shown]
    exact Value.shownAsJson_fails (.list items)
  | .tuple items => by
    rw [Value.shown]
    exact Value.shownAsJson_fails (.tuple items)
  | .map entries => by
    rw [Value.shown]
    exact Value.shownAsJson_fails (.map entries)
  | .undefined | .null | .bool _ | .int _ | .float _ | .str _ | .closure .. => by
    rw [Value.shown]
    exact pure _
  | .bytes bs => by
    simp only [Value.shown]
    exact (Value.text_fails (.bytes bs)).imp fun _ => Failure.IsNameFault.isTypeFault
  | .date d => by
    simp only [Value.shown]
    exact (Value.text_fails (.date d)).imp fun _ => Failure.IsNameFault.isTypeFault
  | .datetime t => by
    simp only [Value.shown]
    exact (Value.text_fails (.datetime t)).imp fun _ => Failure.IsNameFault.isTypeFault
  | .set items => by
    simp only [Value.shown]
    exact (Value.text_fails (.set items)).imp fun _ => Failure.IsNameFault.isTypeFault
  | .object attributes => by
    simp only [Value.shown]
    exact (Value.text_fails (.object attributes)).imp fun _ => Failure.IsNameFault.isTypeFault
  | .literal v => by
    simp only [Value.shown]
    exact (Value.text_fails (.literal v)).imp fun _ => Failure.IsNameFault.isTypeFault
termination_by structural v => v

theorem shownBindings_fails : ∀ es : List (Value × Value),
    (shownBindings es).FailsWith Failure.IsTypeFault
  | [] => by
    rw [shownBindings]
    exact pure _
  | (k, v) :: rest => by
    rw [shownBindings]
    have hk := k.text_fails.imp fun _ => Failure.IsNameFault.isTypeFault
    exact hk.bind fun _ _ => (Value.shown_fails v).bind fun _ _ =>
      (shownBindings_fails rest).bind fun _ _ => pure _
termination_by structural es => es

end

end TreeScript
