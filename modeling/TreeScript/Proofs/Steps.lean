import TreeScript.Evaluation

/-!
# The parts of an evaluation

The steps of `eval` that have parts of their own, named: the values of operands and of the arguments
of an effect, the target of a call and what is done with it, and what an effect goes on with. The
equations below put `eval` together from them, so that a statement about evaluation is proved part
by part.
-/

namespace TreeScript

variable {σ : Type}

/-- The values of operands or arguments, from left to right, each in the same environment. -/
def evalOperands (handler : Option (Handler σ)) (fuel : Nat) (env : Environment)
    (operands : List Expr) : Run σ (List Value) :=
  operands.mapM fun operand => Prod.fst <$> eval handler fuel operand env

/-- What is called: the value of a name, or that of a program in place. -/
def callTarget (handler : Option (Handler σ)) (fuel : Nat) (env : Environment) (callee : Expr) :
    Run σ Value :=
  match callee with
  | .variable key => Run.ofResult (env.lookup key)
  | _ => Prod.fst <$> eval handler fuel callee env

/-- A call of a target: its arguments are evaluated where the call stands, its body in its scope. -/
def callOn (handler : Option (Handler σ)) (fuel : Nat) (env : Environment) (callee : Expr)
    (arguments : List Expr) (target : Value) : Run σ (Value × Environment) :=
  match target with
  | .closure ref inputs body => do
    let values ← evalOperands handler fuel env arguments
    let scope ← Run.scopeOf ref
    Run.enter ⟨callee.callName, values⟩
    let (v, _) ← eval handler fuel body (scope.extendMany (bindInputs inputs values))
    Run.leave
    pure (v, env)
  | _ => throw (.failure (.notAProcedure callee.calleeName))

/-- An argument of an effect with its name: a literal as it is, an expression by its value. -/
def evalArg (handler : Option (Handler σ)) (fuel : Nat) (env : Environment) (entry : Value × Arg) :
    Run σ (Value × Value) :=
  match entry.2 with
  | .literal v => pure (entry.1, v)
  | .expr arg => do
    let (v, _) ← eval handler fuel arg env
    pure (entry.1, v)

/-- The arguments of an effect that are expressions. -/
def argExprs (args : List (Value × Arg)) : List Expr :=
  args.filterMap fun entry =>
    match entry.2 with
    | .literal _ => none
    | .expr e => some e

/-- An answer gets a name, or the environment stays as it is. -/
theorem Environment.bindAnswer_cases {P : Environment → Prop} {env : Environment} (answer : Value)
    (bind : Option String) (hkept : P env)
    (hbound : ∀ key, bind = some key → P (env.extend key answer)) :
    P (env.bindAnswer bind answer) := by
  unfold bindAnswer
  split
  next key =>
    split
    · exact hkept
    · exact hbound key rfl
  next => exact hkept

/-- What an effect goes on with after its answer, which is its value if there is nothing. -/
def evalNext (handler : Option (Handler σ)) (fuel : Nat) (env : Environment) (next : Option Expr)
    (answer : Value) : Run σ (Value × Environment) :=
  match next with
  | some continuation => eval handler fuel continuation env
  | none => pure (answer, env)

/-- The branch of a conditional that is taken. -/
def chosenBranch (handler : Option (Handler σ)) (fuel : Nat) (env : Environment)
    (condition onTrue onFalse : Expr) : Run σ Expr := do
  let (v, _) ← eval handler fuel condition env
  let branch := if v.isTruthy then onTrue else onFalse
  Run.tell s!"IF {boolText v.isTruthy} -> {branch.branchName}"
  pure branch

/-- The answer of a host to an effect, after the arguments of the effect have been evaluated. -/
def evalAnswer (handler : Option (Handler σ)) (fuel : Nat) (env : Environment)
    (answer : Handler σ) (name : String) (args : List (Value × Arg)) : Run σ Value := do
  let values ← args.mapM (evalArg handler fuel env)
  Run.tellEffect name values
  Run.perform answer name values

/-- An effect that a host answers. -/
def evalEffect (handler : Option (Handler σ)) (fuel : Nat) (env : Environment)
    (answer : Handler σ) (name : String) (args : List (Value × Arg)) (bind : Option String)
    (next : Option Expr) : Run σ (Value × Environment) := do
  let values ← args.mapM (evalArg handler fuel env)
  Run.tellEffect name values
  let v ← Run.perform answer name values
  evalNext handler fuel (env.bindAnswer bind v) next v

theorem eval_call (handler : Option (Handler σ)) (fuel : Nat) (callee : Expr)
    (arguments : List Expr) (env : Environment) :
    eval handler (fuel + 1) (.call callee arguments) env =
      callTarget handler fuel env callee >>= callOn handler fuel env callee arguments := by
  cases callee <;> rfl

theorem eval_conditional (handler : Option (Handler σ)) (fuel : Nat)
    (condition onTrue onFalse : Expr) (env : Environment) :
    eval handler (fuel + 1) (.conditional condition onTrue onFalse) env =
      (do
        let branch ← chosenBranch handler fuel env condition onTrue onFalse
        eval handler fuel branch env) := by
  simp only [eval, chosenBranch, bind_assoc, pure_bind]

theorem eval_effect_some (answer : Handler σ) (fuel : Nat) (name : String)
    (args : List (Value × Arg)) (bind : Option String) (next : Option Expr) (env : Environment) :
    eval (some answer) (fuel + 1) (.effect name args bind next) env =
      evalEffect (some answer) fuel env answer name args bind next := by
  cases next <;> rfl

theorem evalEffect_eq (handler : Option (Handler σ)) (fuel : Nat) (env : Environment)
    (answer : Handler σ) (name : String) (args : List (Value × Arg)) (bind : Option String)
    (next : Option Expr) :
    evalEffect handler fuel env answer name args bind next =
      (do
        let v ← evalAnswer handler fuel env answer name args
        evalNext handler fuel (env.bindAnswer bind v) next v) := by
  simp only [evalEffect, evalAnswer, bind_assoc]

end TreeScript
