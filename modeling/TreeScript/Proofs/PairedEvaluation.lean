import TreeScript.Proofs.Pairing
import TreeScript.Proofs.RenamedValues
import TreeScript.Proofs.Steps

/-!
# Evaluation goes along with a pairing

Two evaluations of matching programs in matching environments do the same on matching machines: this
is `eval_relates`. The hosts have to be uniform, and apart from that nothing is asked of them.

The proof is by induction on the fuel. Each part of an evaluation that `TreeScript.Proofs.Steps`
names has a statement of its own, given that the claim holds for less fuel. The environments of a
step stay matching while its parts run, since these only extend the pairing.
-/

namespace TreeScript

variable {σ : Type} [Renames σ] {handler : Option (Handler σ)} {fuel : Nat} {p : Pairing}

namespace Pairing.Matches

variable {env env' : Environment} {v v' : Value}

theorem lookup (henv : p.Matches env env') (key : String) :
    p.Matches (env.lookup key) (env'.lookup key) :=
  henv.apply (·.lookup key) fun g env => Environment.lookup_rename g env key

theorem extend (henv : p.Matches env env') (key : String) (hv : p.Matches v v') :
    p.Matches (env.extend key v) (env'.extend key v') :=
  henv.apply₂ hv (·.extend key ·) fun g env v => Environment.extend_rename g env key v

theorem bindAnswer (henv : p.Matches env env') (bind : Option String) (hv : p.Matches v v') :
    p.Matches (env.bindAnswer bind v) (env'.bindAnswer bind v') := by
  unfold Environment.bindAnswer
  split
  next key =>
    split
    · exact henv
    · exact henv.extend key hv
  next => exact henv

end Pairing.Matches

/-- Evaluations with this much fuel go along with every pairing. -/
def EvalRelates (handler : Option (Handler σ)) (fuel : Nat) : Prop :=
  ∀ (p : Pairing) {e e' : Expr} {env env' : Environment}, p.Matches e e' → p.Matches env env' →
    p.Relates (eval handler fuel e env) (eval handler fuel e' env')

namespace EvalRelates

variable {env env' : Environment}

theorem operands (ih : EvalRelates handler fuel) {es es' : List Expr} (hes : p.Matches es es')
    (henv : p.Matches env env') :
    p.Relates (evalOperands handler fuel env es) (evalOperands handler fuel env' es') :=
  .mapM (fun q _ _ hpq he => (ih q he (henv.mono hpq)).fst) es hes

theorem target (ih : EvalRelates handler fuel) {callee callee' : Expr}
    (hcallee : p.Matches callee callee') (henv : p.Matches env env') :
    p.Relates (callTarget handler fuel env callee) (callTarget handler fuel env' callee') := by
  have heval := (ih p hcallee henv).fst
  obtain rfl : callee' = rename p.image callee := hcallee.rename_eq.symm
  cases callee with
  | «variable» key => exact .ofResult (henv.lookup key)
  | _ => exact heval

/-- A call: the scope in which the body is evaluated is that of a known closure. -/
theorem call (ih : EvalRelates handler fuel) {callee callee' : Expr} {args args' : List Expr}
    {v v' : Value} (hcallee : p.Matches callee callee') (hargs : p.Matches args args')
    (hv : p.Matches v v') (henv : p.Matches env env') :
    p.Relates (callOn handler fuel env callee args v)
      (callOn handler fuel env' callee' args' v') := by
  obtain rfl : callee' = rename p.image callee := hcallee.rename_eq.symm
  obtain rfl : v' = rename p.image v := hv.rename_eq.symm
  cases v with
  | closure ref inputs body =>
    obtain ⟨href, -, hbody⟩ := hv.of_closure
    rw [rename_closure]
    unfold callOn
    refine (operands ih hargs henv).bind fun q values values' hpq hvalues => ?_
    rw [← hpq.image_eq, Expr.callName_rename]
    refine (Pairing.Relates.scopeOf (hpq.known_of_known ref href)).bind ?_
    intro q₁ scope scope' hq₁ hscope
    have hframe : q₁.Matches (⟨callee.callName, values⟩ : Frame) ⟨callee.callName, values'⟩ :=
      (hvalues.mono hq₁).apply (Frame.mk _) fun _ _ => rfl
    refine (Pairing.Relates.enter hframe).bind fun q₂ _ _ hq₂ _ => ?_
    have hbound : q₂.Matches (bindInputs inputs values) (bindInputs inputs values') :=
      ((hvalues.mono hq₁).mono hq₂).apply (bindInputs inputs) fun g values =>
        bindInputs_rename g inputs values
    have hinner : q₂.Matches (scope.extendMany (bindInputs inputs values))
        (scope'.extendMany (bindInputs inputs values')) :=
      (hscope.mono hq₂).apply₂ hbound Environment.extendMany fun g env pairs =>
        Environment.extendMany_rename g env pairs
    have hp₂ : p.Extends q₂ := (hpq.trans hq₁).trans hq₂
    have hbody₂ : q₂.Matches body (rename q.image body) := by
      rw [hpq.image_eq]
      exact Pairing.Matches.mono hbody hp₂
    refine (ih q₂ hbody₂ hinner).bind fun q₃ result result' hq₃ hresult => ?_
    have hv : q₃.Matches result.1 result'.1 := hresult.fst
    refine Pairing.Relates.leave.bind fun q₄ _ _ hq₄ _ => ?_
    exact .pure ((hv.mono hq₄).pair (henv.mono ((hp₂.trans hq₃).trans hq₄)))
  | _ =>
    unfold callOn
    rw [Expr.calleeName_rename]
    exact .throw _

theorem arg (ih : EvalRelates handler fuel) {entry entry' : Value × Arg}
    (hentry : p.Matches entry entry') (henv : p.Matches env env') :
    p.Relates (evalArg handler fuel env entry) (evalArg handler fuel env' entry') := by
  obtain ⟨key, value⟩ := entry
  obtain ⟨key', value'⟩ := entry'
  have hkey : p.Matches key key' := hentry.fst
  have hvalue : p.Matches value value' := hentry.snd
  obtain rfl : value' = rename p.image value := hvalue.rename_eq.symm
  cases value with
  | literal v =>
    have hv : p.Matches v (rename p.image v) := hvalue.part fun g g' h => Arg.literal.inj h
    exact .pure (hkey.pair hv)
  | expr e =>
    have he : p.Matches e (rename p.image e) := hvalue.part fun g g' h => Arg.expr.inj h
    refine (ih p he henv).bind fun q result result' hpq hresult => ?_
    exact .pure ((hkey.mono hpq).pair hresult.fst)

theorem next (ih : EvalRelates handler fuel) {e e' : Option Expr} {v v' : Value}
    (he : p.Matches e e') (hv : p.Matches v v') (henv : p.Matches env env') :
    p.Relates (evalNext handler fuel env e v) (evalNext handler fuel env' e' v') := by
  obtain rfl : e' = rename p.image e := he.rename_eq.symm
  cases e with
  | none => exact .pure (hv.pair henv)
  | some continuation => exact ih p (he.part fun g g' h => Option.some.inj h) henv

theorem effect (ih : EvalRelates handler fuel) {answer : Handler σ} (huniform : answer.Uniform)
    (name : String) {args args' : List (Value × Arg)} (bind : Option String)
    {continuation continuation' : Option Expr} (hargs : p.Matches args args')
    (hcontinuation : p.Matches continuation continuation') (henv : p.Matches env env') :
    p.Relates (evalEffect handler fuel env answer name args bind continuation)
      (evalEffect handler fuel env' answer name args' bind continuation') := by
  have hvalues : p.Relates (args.mapM (evalArg handler fuel env))
      (args'.mapM (evalArg handler fuel env')) :=
    .mapM (fun q _ _ hpq hentry => arg ih hentry (henv.mono hpq)) args hargs
  refine hvalues.bind fun q values values' hpq hvalues => ?_
  refine (Pairing.Relates.tellEffect name values values').bind fun q₁ _ _ hq₁ _ => ?_
  refine (Pairing.Relates.perform huniform name (hvalues.mono hq₁)).bind fun q₂ v v' hq₂ hv => ?_
  have hp₂ : p.Extends q₂ := (hpq.trans hq₁).trans hq₂
  exact next ih (hcontinuation.mono hp₂) hv ((henv.mono hp₂).bindAnswer bind hv)

end EvalRelates

/-- Evaluations of matching programs in matching environments go along with every pairing. -/
theorem eval_relates (huniform : ∀ answer, handler = some answer → answer.Uniform) (fuel : Nat) :
    EvalRelates handler fuel := by
  -- on the fuel, since the body of a closure is no part of the call
  induction fuel with
  | zero =>
    intro p e e' env env' _ _
    exact .throw .outOfFuel
  | succ fuel ih =>
    intro p e e' env env' he henv
    -- the second program is the first one renamed, so one case split serves both
    obtain rfl : e' = rename p.image e := he.rename_eq.symm
    cases e with
    | number n =>
      have hn : p.Matches n.toValue n.toValue := fun g _ => by cases n <;> rfl
      exact .pure (hn.pair henv)
    | string s => exact .pure (.pair (fun _ _ => rfl) henv)
    | boolean b => exact .pure (.pair (fun _ _ => rfl) henv)
    | «variable» key =>
      -- the pairing grows along the run, and `mono` carries over what matched before
      refine (Pairing.Relates.ofResult (henv.lookup key)).bind fun q v v' hpq hv => ?_
      exact .pure (hv.pair (henv.mono hpq))
    | definition key value =>
      have hvalue : p.Matches value (rename p.image value) :=
        he.part fun g g' h => (Expr.definition.inj h).2
      refine (ih p hvalue henv).bind fun q result result' hpq hresult => ?_
      have hextended : q.Matches (env.extend key result.1) (env'.extend key result'.1) :=
        (henv.mono hpq).extend key hresult.fst
      refine (Pairing.Relates.adoptScope hresult.fst hextended).bind fun q₁ _ _ hq₁ _ => ?_
      refine (Pairing.Relates.tell _ _).bind fun q₂ _ _ hq₂ _ => ?_
      exact .pure (.pair (fun _ _ => rfl) (hextended.mono (hq₁.trans hq₂)))
    | procedure inputs body =>
      exact .makeClosure (he.part fun g g' h => (Expr.procedure.inj h).2) henv
    | arithmetic op operands =>
      have hoperands : p.Matches operands (rename p.image operands) :=
        he.part fun g g' h => by simpa using h
      rw [rename_arithmetic]
      refine (EvalRelates.operands ih hoperands henv).bind fun q values values' hpq hvalues => ?_
      have hfold : q.Matches (op.fold values) (op.fold values') :=
        hvalues.apply op.fold fun g values => ArithmeticOp.fold_rename g op values
      refine (Pairing.Relates.ofResult hfold).bind fun q₁ v v' hq₁ hv => ?_
      exact .pure (hv.pair (henv.mono (hpq.trans hq₁)))
    | comparison op operands =>
      have hoperands : p.Matches operands (rename p.image operands) :=
        he.part fun g g' h => by simpa using h
      rw [rename_comparison]
      refine (EvalRelates.operands ih hoperands henv).bind fun q values values' hpq hvalues => ?_
      have hchain : q.Matches (op.chain values) (op.chain values') := by
        rw [← hvalues.rename_eq, ComparisonOp.chain_rename]
        intro g _
        cases op.chain values <;> rfl
      refine (Pairing.Relates.ofResult hchain).bind fun q₁ b b' hq₁ hb => ?_
      have hbool : q₁.Matches (Value.bool b) (.bool b') := hb.apply Value.bool fun _ _ => rfl
      exact .pure (hbool.pair (henv.mono (hpq.trans hq₁)))
    | conditional condition onTrue onFalse =>
      have hcondition : p.Matches condition (rename p.image condition) :=
        he.part fun g g' h => (Expr.conditional.inj h).1
      have htrue : p.Matches onTrue (rename p.image onTrue) :=
        he.part fun g g' h => (Expr.conditional.inj h).2.1
      have hfalse : p.Matches onFalse (rename p.image onFalse) :=
        he.part fun g g' h => (Expr.conditional.inj h).2.2
      refine (ih p hcondition henv).bind fun q result result' hpq hresult => ?_
      -- whether a value counts as true does not depend on the numbers of closures
      have htaken : result'.1.isTruthy = result.1.isTruthy := by
        rw [← hresult.fst.rename_eq, Value.isTruthy_rename]
      refine (Pairing.Relates.tell _ _).bind fun q₁ _ _ hq₁ _ => ?_
      refine ih q₁ ?_ (henv.mono (hpq.trans hq₁))
      rw [htaken]
      split
      · exact htrue.mono (hpq.trans hq₁)
      · exact hfalse.mono (hpq.trans hq₁)
    | call callee arguments =>
      have hcallee : p.Matches callee (rename p.image callee) :=
        he.part fun g g' h => (Expr.call.inj h).1
      have harguments : p.Matches arguments (rename p.image arguments) :=
        he.part fun g g' h => by
          simp only [rename_call, Expr.call.injEq] at h
          exact h.2
      rw [rename_call, eval_call, eval_call]
      refine (EvalRelates.target ih hcallee henv).bind fun q v v' hpq hv => ?_
      exact EvalRelates.call ih (hcallee.mono hpq) (harguments.mono hpq) hv (henv.mono hpq)
    | effect name args bind next =>
      have hargs : p.Matches args (rename p.image args) :=
        he.part fun g g' h => by
          simp only [rename_effect, Expr.effect.injEq] at h
          exact h.2.1
      have hnext : p.Matches next (rename p.image next) :=
        he.part fun g g' h => by
          simp only [rename_effect, Expr.effect.injEq] at h
          exact h.2.2.2
      cases handler with
      | none => exact .throw _
      | some answer =>
        rw [rename_effect, eval_effect_some, eval_effect_some]
        exact EvalRelates.effect ih (huniform answer rfl) name bind hargs hnext henv
    | block items => exact .throw _

/-- So do the runs of programs one after the other. -/
theorem evalAll_relates (huniform : ∀ answer, handler = some answer → answer.Uniform) (fuel : Nat)
    (es : List Expr) {es' : List Expr} {env env' : Environment} (hes : p.Matches es es')
    (henv : p.Matches env env') :
    p.Relates (evalAll handler fuel es env) (evalAll handler fuel es' env') := by
  obtain rfl : es' = rename p.image es := hes.rename_eq.symm
  induction es generalizing p env env' with
  | nil => exact .pure (.pair .nil henv)
  | cons e rest ih =>
    have he : p.Matches e (rename p.image e) := hes.part fun g g' h => (List.cons.inj h).1
    have hrest : p.Matches rest (rename p.image rest) := hes.part fun g g' h => (List.cons.inj h).2
    refine (eval_relates huniform fuel p he henv).bind fun q result result' hpq hresult => ?_
    have hv : q.Matches result.1 result'.1 := hresult.fst
    have hvs : q.Relates (evalAll handler fuel rest result.2)
        (evalAll handler fuel (rename p.image rest) result'.2) := by
      rw [← hpq.image_eq] at hrest ⊢
      exact ih hresult.snd (hrest.mono hpq)
    refine hvs.bind fun q₁ results results' hq₁ hresults => ?_
    exact .pure (.pair (.cons (hv.mono hq₁) hresults.fst) hresults.snd)

end TreeScript
