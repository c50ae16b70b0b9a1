import TreeScript.Environment
import TreeScript.Program.Decode
import TreeScript.Value.Arithmetic
import TreeScript.Value.Order

/-!
# Evaluation

`eval` reduces a program to a value in an environment. It returns the environment after it, which
differs from the one before only for a definition and for an effect that names its answer; between
operands and arguments no environment is passed on. Everything goes from left to right, and of a
conditional one branch is taken.

Four things are kept beside the environment, in a `Machine`: the scopes of closures, the calls that
have been entered and not left, a log of what happened, and the host. A failure leaves all of them
as they are at that point, so that the calls then tell where it happened.

A closure is made with a scope of its own. A definition gives the closure that it binds the
environment with the new binding for a scope, so that a procedure can call itself by its name. Since
the scope belongs to the closure, all holders of the closure see this.

The recursion is bounded by a fuel argument. Running out of it is not a failure of the program; it
is told apart by `Stop.outOfFuel`.
-/

namespace TreeScript

/-- A call of which the body has been entered. -/
structure Frame where
  /-- The name that was called, or a mark for a procedure in place. -/
  name : String
  /-- The arguments. -/
  args : List Value

/-- An entry of the log of a run. -/
inductive Record where
  /-- An effect was called. -/
  | effect (name : Value) (args : Bindings)
  /-- A value was printed. -/
  | output (message : Value)
  /-- The run failed. -/
  | error (message : String)

/-- What a host gives back for an effect. -/
structure Reply (σ : Type) where
  /-- The answer or the failure. -/
  outcome : Result Value
  /-- What the host adds to the log. -/
  records : List Record
  /-- The host afterwards. -/
  host : σ

/-- A host's answer to effects: what it does with a name and arguments. -/
abbrev Handler (σ : Type) := String → Bindings → σ → Reply σ

/-- What is kept beside the environment during a run. -/
structure Machine (σ : Type) where
  /-- The scopes of the closures made so far. -/
  scopes : Array Environment
  /-- The calls that have been entered and not left, outermost first. -/
  calls : List Frame
  /-- What happened. -/
  log : List Record
  /-- Whether the steps of evaluation are to be told. -/
  tracing : Bool
  /-- What has been told of the steps of evaluation. -/
  trace : String
  /-- The host. -/
  host : σ

/-- Why a run ended without a value. -/
inductive Stop where
  /-- The program failed. -/
  | failure (failure : Failure)
  /-- The bound on the recursion was reached. -/
  | outOfFuel
  deriving DecidableEq, Repr

/-- A computation over a machine that can stop. -/
abbrev Run (σ : Type) := ExceptT Stop (StateM (Machine σ))

namespace Run

variable {σ : Type}

/-- A result as a computation that leaves the machine alone. -/
def ofResult {α : Type} : Result α → Run σ α
  | .ok a => pure a
  | .error failure => throw (.failure failure)

/-- Tells a step of evaluation, on a line of its own. -/
def tell (line : String) : Run σ Unit :=
  modify fun m => if m.tracing then { m with trace := m.trace ++ "[DBG] " ++ line ++ "\n" } else m

/-- Makes a scope. -/
def newScope (env : Environment) : Run σ ScopeRef := do
  let m ← get
  set { m with scopes := m.scopes.push env }
  pure m.scopes.size

/-- The scope of a closure. -/
def scopeOf (ref : ScopeRef) : Run σ Environment := do
  let m ← get
  pure (m.scopes.getD ref Environment.empty)

/-- Gives a closure another scope. -/
def rescope (ref : ScopeRef) (env : Environment) : Run σ Unit :=
  modify fun m => { m with scopes := m.scopes.setIfInBounds ref env }

/-- Enters a call. -/
def enter (frame : Frame) : Run σ Unit :=
  modify fun m => { m with calls := m.calls ++ [frame] }

/-- Leaves the innermost call. -/
def leave : Run σ Unit :=
  modify fun m => { m with calls := m.calls.dropLast }

/-- Has the host answer an effect. -/
def perform (handler : Handler σ) (name : String) (args : Bindings) : Run σ Value := do
  let m ← get
  let reply := handler name args m.host
  set { m with log := m.log ++ reply.records, host := reply.host }
  ofResult reply.outcome

/-- Tells that an effect is called. Arguments that cannot be shown break the line off. -/
def tellEffect (name : String) (args : Bindings) : Run σ Unit :=
  match (Value.map args).literalText with
  | .ok shown => tell s!"EFFECT {name} {shown}"
  | .error _ =>
    modify fun m =>
      if m.tracing then { m with trace := m.trace ++ "[DBG] EFFECT " ++ name ++ " " } else m

end Run

/-- Combines the operands of an arithmetic operation from the left. -/
def ArithmeticOp.fold (op : ArithmeticOp) : List Value → Result Value
  | [] => throw (.index "list index out of range")
  | v :: rest => rest.foldlM op.apply v

/-- Whether a comparison holds between every two neighbouring operands; the first pair for which it
does not hold decides. -/
def ComparisonOp.chain (op : ComparisonOp) : List Value → Result Bool
  | a :: b :: rest => do
    if ← op.holds a b then op.chain (b :: rest) else pure false
  | _ => pure true

/-- The arguments for the inputs of a procedure, by position: an input without an argument is bound
to the undefined mark, and arguments beyond the inputs are dropped. -/
def bindInputs : List String → List Value → List (String × Value)
  | [], _ => []
  | name :: names, [] => (name, .undefined) :: bindInputs names []
  | name :: names, v :: vs => (name, v) :: bindInputs names vs

/-- The name under which a call is entered. -/
def Expr.callName : Expr → String
  | .variable key => key
  | _ => "<procedure>"

/-- The name under which something that cannot be called is reported. -/
def Expr.calleeName : Expr → String
  | .variable key => key
  | _ => "<inline>"

/-- The environment after an effect with an answer, which may have a name other than the empty one.
-/
def Environment.bindAnswer (env : Environment) (bind : Option String) (answer : Value) :
    Environment :=
  match bind with
  | some key => if key == "" then env else env.extend key answer
  | none => env

/-- The kind of a branch, as it is told. -/
def Expr.branchName (e : Expr) : String := e.kindName

variable {σ : Type}

/-- Gives the closure that a definition binds the new environment for a scope
(`_eval_definition`). -/
def adoptScope (value : Value) (env : Environment) : Run σ Unit :=
  match value with
  | .closure ref _ _ => Run.rescope ref env
  | _ => pure ()

/-- Reduces a program to a value in an environment, with the environment after it (`evaluate`). -/
def eval (handler : Option (Handler σ)) : Nat → Expr → Environment → Run σ (Value × Environment)
  | 0, _, _ => throw .outOfFuel
  | fuel + 1, e, env =>
    match e with
    | .number n => pure (n.toValue, env)
    | .string s => pure (.str s, env)
    | .boolean b => pure (.bool b, env)
    | .variable key => do
      let v ← Run.ofResult (env.lookup key)
      pure (v, env)
    | .definition key value => do
      let (v, _) ← eval handler fuel value env
      let extended := env.extend key v
      adoptScope v extended
      Run.tell s!"DEFINE {key} {v.kindName}"
      pure (.null, extended)
    | .procedure inputs body => do
      let ref ← Run.newScope env
      pure (.closure ref inputs body, env)
    | .arithmetic op operands => do
      let values ← operands.mapM fun operand => Prod.fst <$> eval handler fuel operand env
      let v ← Run.ofResult (op.fold values)
      pure (v, env)
    | .comparison op operands => do
      let values ← operands.mapM fun operand => Prod.fst <$> eval handler fuel operand env
      let b ← Run.ofResult (op.chain values)
      pure (.bool b, env)
    | .conditional condition onTrue onFalse => do
      let (v, _) ← eval handler fuel condition env
      let taken := v.isTruthy
      let branch := if taken then onTrue else onFalse
      Run.tell s!"IF {boolText taken} -> {branch.branchName}"
      eval handler fuel branch env
    | .call callee arguments => do
      let target ← match callee with
        | .variable key => Run.ofResult (env.lookup key)
        | _ => Prod.fst <$> eval handler fuel callee env
      match target with
      | .closure ref inputs body => do
        let values ← arguments.mapM fun argument => Prod.fst <$> eval handler fuel argument env
        let scope ← Run.scopeOf ref
        Run.enter ⟨callee.callName, values⟩
        let (v, _) ← eval handler fuel body (scope.extendMany (bindInputs inputs values))
        Run.leave
        pure (v, env)
      | _ => throw (.failure (.notAProcedure callee.calleeName))
    | .effect name args bind next =>
      match handler with
      | none => throw (.failure (.noEffectHandler name))
      | some answer => do
        let values ← args.mapM fun entry =>
          match entry.2 with
          | .literal v => pure (entry.1, v)
          | .expr arg => do
            let (v, _) ← eval handler fuel arg env
            pure (entry.1, v)
        Run.tellEffect name values
        let v ← Run.perform answer name values
        let after := env.bindAnswer bind v
        match next with
        | some continuation => eval handler fuel continuation after
        | none => pure (v, after)
    | .block _ => throw (.failure (.malformed (.notEvaluable e.kindName)))

/-- Runs programs in order, each in the environment after the one before it, with the values of all
of them and the last environment (`execute_sequence`). -/
def evalAll (handler : Option (Handler σ)) (fuel : Nat) :
    List Expr → Environment → Run σ (List Value × Environment)
  | [], env => pure ([], env)
  | e :: rest, env => do
    let (v, after) ← eval handler fuel e env
    let (vs, last) ← evalAll handler fuel rest after
    pure (v :: vs, last)

/-- Runs trees in order, each decoded when its turn comes. -/
def evalTrees (handler : Option (Handler σ)) (fuel : Nat) :
    List Value → Environment → Run σ (List Value × Environment)
  | [], env => pure ([], env)
  | tree :: rest, env => do
    let e ← Run.ofResult (Expr.ofValue tree)
    let (v, after) ← eval handler fuel e env
    let (vs, last) ← evalTrees handler fuel rest after
    pure (v :: vs, last)

end TreeScript
