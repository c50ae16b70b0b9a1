import TreeScript.Proofs.Basic
import TreeScript.Proofs.Runs
import TreeScript.Proofs.Steps

/-!
# The course of an evaluation

`eval` says how an evaluation ends. To say what holds on the way, an evaluation is unfolded here
into a `Script`: it has ended with a value, or stopped for a `Cause`, or it takes a `Step` on the
machine and goes on as the reply to this step has it. `evaluation` is the script of a program, and
`evaluation_run` says that running the script is the same as evaluating.

A `RunState` is a script with the machine it is to run on. `Course handler c steps c'` says that a
run gets from `c` to `c'` by the steps in between. These are the states of a run: every run has a
course to its end (`Script.exists_course`), and goes on from each state of it to the same end
(`Course.run_eq`).
-/

namespace TreeScript

/-- What an evaluation does with the machine at one point. -/
inductive Step where
  /-- A procedure becomes a closure, of which the environment is the scope. -/
  | close (env : Environment)
  /-- A name is bound to a value. `env` is the environment with the binding; it becomes the scope of
  the value if that is a closure. -/
  | define (key : String) (value : Value) (env : Environment)
  /-- A branch of a conditional is taken. -/
  | branch (taken : Bool) (branch : Expr)
  /-- The body of a closure is entered, to be evaluated in the scope of the closure. -/
  | enter (ref : ScopeRef) (frame : Frame)
  /-- The innermost call is left. -/
  | leave
  /-- The host is asked. -/
  | perform (name : String) (args : Bindings)

/-- What an evaluation gets back from a step: the closure made, the scope, the answer. -/
def Step.Reply : Step → Type
  | .close _ => ScopeRef
  | .define .. => Unit
  | .branch .. => Unit
  | .enter .. => Environment
  | .leave => Unit
  | .perform .. => Value

/-- Why an evaluation stops. -/
inductive Cause where
  /-- The bound on the recursion was reached. -/
  | outOfFuel
  /-- A name has no value. -/
  | unbound (key : String)
  /-- What is called is no closure. -/
  | notCallable (callee : Expr) (target : Value)
  /-- There is no host to answer an effect. -/
  | hostless (effect : String)
  /-- An arithmetic operator fails on the values of its operands. -/
  | arithmetic (op : ArithmeticOp) (operands : List Value) (failure : Failure)
  /-- A comparison fails on the values of its operands. -/
  | comparison (op : ComparisonOp) (operands : List Value) (failure : Failure)
  /-- What is to be evaluated is no single program. -/
  | notEvaluable (e : Expr)
  /-- The host fails to answer an effect. -/
  | refused (effect : String) (args : Bindings) (failure : Failure)

/-- How a run ends that stops for a cause. -/
def Cause.stop : Cause → Stop
  | .outOfFuel => .outOfFuel
  | .unbound key => .failure (.undefinedVariable key)
  | .notCallable callee _ => .failure (.notAProcedure callee.calleeName)
  | .hostless effect => .failure (.noEffectHandler effect)
  | .arithmetic _ _ failure => .failure failure
  | .comparison _ _ failure => .failure failure
  | .notEvaluable e => .failure (.malformed (.notEvaluable e.kindName))
  | .refused _ _ failure => .failure failure

/-- An evaluation that is yet to run. -/
inductive Script (α : Type) where
  /-- It has ended. -/
  | done (a : α)
  /-- It has stopped. -/
  | stop (cause : Cause)
  /-- It takes a step and goes on with the reply. -/
  | step (s : Step) (next : s.Reply → Script α)

namespace Script

variable {α β γ : Type}

/-- A script followed by another. -/
def bind : Script α → (α → Script β) → Script β
  | .done a, f => f a
  | .stop cause, _ => .stop cause
  | .step s next, f => .step s fun r => (next r).bind f

instance : Monad Script where
  pure := .done
  bind := .bind

theorem bind_done (x : Script α) : x.bind .done = x := by
  induction x with
  | done a => rfl
  | stop cause => rfl
  | step s next ih =>
    rw [bind]
    exact congrArg (step s) (funext ih)

theorem bind_bind (x : Script α) (f : α → Script β) (g : β → Script γ) :
    (x.bind f).bind g = x.bind fun a => (f a).bind g := by
  induction x with
  | done a => rfl
  | stop cause => rfl
  | step s next ih =>
    rw [bind, bind, bind]
    exact congrArg (step s) (funext ih)

instance : LawfulMonad Script :=
  LawfulMonad.mk' Script bind_done (fun _ _ => rfl) bind_bind

/-- A closure is made; its reference. -/
def close (env : Environment) : Script ScopeRef := .step (.close env) .done

/-- A name is bound to a value. -/
def define (key : String) (value : Value) (env : Environment) : Script Unit :=
  .step (.define key value env) .done

/-- A branch is taken. -/
def branch (taken : Bool) (e : Expr) : Script Unit := .step (.branch taken e) .done

/-- The body of a closure is entered; the scope of the closure. -/
def enter (ref : ScopeRef) (frame : Frame) : Script Environment := .step (.enter ref frame) .done

/-- A call is left. -/
def leave : Script Unit := .step .leave .done

/-- The host is asked; its answer. -/
def perform (name : String) (args : Bindings) : Script Value := .step (.perform name args) .done

/-- The value of a name. -/
def lookup (env : Environment) (key : String) : Script Value :=
  match env.lookup key with
  | .ok v => .done v
  | .error _ => .stop (.unbound key)

/-- The combination of operands by an arithmetic operator. -/
def combine (op : ArithmeticOp) (operands : List Value) : Script Value :=
  match op.fold operands with
  | .ok v => .done v
  | .error failure => .stop (.arithmetic op operands failure)

/-- Whether a comparison holds between neighbouring operands. -/
def compare (op : ComparisonOp) (operands : List Value) : Script Value :=
  match op.chain operands with
  | .ok b => .done (.bool b)
  | .error failure => .stop (.comparison op operands failure)

/-- The scripts of programs in environments. -/
abbrev Evaluator := Expr → Environment → Script (Value × Environment)

/-- The values of operands or arguments, from left to right, each in the same environment. -/
def values (ev : Evaluator) (env : Environment) (operands : List Expr) : Script (List Value) :=
  operands.mapM fun operand => Prod.fst <$> ev operand env

/-- What is called: the value of a name, or that of a program in place. -/
def target (ev : Evaluator) (env : Environment) (callee : Expr) : Script Value :=
  match callee with
  | .variable key => lookup env key
  | _ => Prod.fst <$> ev callee env

/-- A call of a target. -/
def call (ev : Evaluator) (env : Environment) (callee : Expr) (arguments : List Expr)
    (target : Value) : Script (Value × Environment) :=
  match target with
  | .closure ref inputs body => do
    let args ← values ev env arguments
    let scope ← enter ref ⟨callee.callName, args⟩
    let (v, _) ← ev body (scope.extendMany (bindInputs inputs args))
    leave
    pure (v, env)
  | _ => .stop (.notCallable callee target)

/-- An argument of an effect with its name. -/
def argument (ev : Evaluator) (env : Environment) (entry : Value × Arg) : Script (Value × Value) :=
  match entry.2 with
  | .literal v => pure (entry.1, v)
  | .expr arg => do
    let (v, _) ← ev arg env
    pure (entry.1, v)

/-- What an effect goes on with after its answer. -/
def next (ev : Evaluator) (env : Environment) (continuation : Option Expr) (answer : Value) :
    Script (Value × Environment) :=
  match continuation with
  | some e => ev e env
  | none => pure (answer, env)

/-- An effect that a host answers. -/
def effect (ev : Evaluator) (env : Environment) (name : String) (args : List (Value × Arg))
    (bind : Option String) (continuation : Option Expr) : Script (Value × Environment) := do
  let values ← args.mapM (argument ev env)
  let v ← perform name values
  next ev (env.bindAnswer bind v) continuation v

end Script

/-- The script of a program. That of an effect depends on whether there is a host. -/
def evaluation (hosted : Bool) : Nat → Script.Evaluator
  | 0, _, _ => .stop .outOfFuel
  | fuel + 1, e, env =>
    match e with
    | .number n => pure (n.toValue, env)
    | .string s => pure (.str s, env)
    | .boolean b => pure (.bool b, env)
    | .variable key => do
      let v ← Script.lookup env key
      pure (v, env)
    | .definition key value => do
      let (v, _) ← evaluation hosted fuel value env
      Script.define key v (env.extend key v)
      pure (.null, env.extend key v)
    | .procedure inputs body => do
      let ref ← Script.close env
      pure (.closure ref inputs body, env)
    | .arithmetic op operands => do
      let values ← Script.values (evaluation hosted fuel) env operands
      let v ← Script.combine op values
      pure (v, env)
    | .comparison op operands => do
      let values ← Script.values (evaluation hosted fuel) env operands
      let v ← Script.compare op values
      pure (v, env)
    | .conditional condition onTrue onFalse => do
      let (v, _) ← evaluation hosted fuel condition env
      let branch := if v.isTruthy then onTrue else onFalse
      Script.branch v.isTruthy branch
      evaluation hosted fuel branch env
    | .call callee arguments => do
      let target ← Script.target (evaluation hosted fuel) env callee
      Script.call (evaluation hosted fuel) env callee arguments target
    | .effect name args bind next =>
      if hosted then Script.effect (evaluation hosted fuel) env name args bind next
      else .stop (.hostless name)
    | .block _ => .stop (.notEvaluable e)

/-- The script of programs one after the other. -/
def evaluations (hosted : Bool) (fuel : Nat) :
    List Expr → Environment → Script (List Value × Environment)
  | [], env => pure ([], env)
  | e :: rest, env => do
    let (v, after) ← evaluation hosted fuel e env
    let (vs, last) ← evaluations hosted fuel rest after
    pure (v :: vs, last)

/-! ## Running a script -/

variable {σ α β : Type}

/-- Has the host, if there is one, answer an effect. -/
def Run.ask (handler : Option (Handler σ)) (name : String) (args : Bindings) : Run σ Value := do
  tellEffect name args
  match handler with
  | some answer => perform answer name args
  | none => throw (.failure (.noEffectHandler name))

/-- What a step does. Only a host can fail. -/
def Step.run (handler : Option (Handler σ)) : (s : Step) → Run σ s.Reply
  | .close env => Run.newScope env
  | .define key value env => do
    adoptScope value env
    Run.tell s!"DEFINE {key} {value.kindName}"
  | .branch taken e => Run.tell s!"IF {boolText taken} -> {e.branchName}"
  | .enter ref frame => do
    let scope ← Run.scopeOf ref
    Run.enter frame
    pure scope
  | .leave => Run.leave
  | .perform name args => Run.ask handler name args

/-- Runs a script. -/
def Script.run (handler : Option (Handler σ)) : Script α → Run σ α
  | .done a => pure a
  | .stop cause => throw cause.stop
  | .step s next => do
    let r ← s.run handler
    (next r).run handler

namespace Script

variable (handler : Option (Handler σ))

@[simp]
theorem run_pure (a : α) : (pure a : Script α).run handler = pure a := rfl

@[simp]
theorem run_bind (x : Script α) (f : α → Script β) :
    (x >>= f).run handler = x.run handler >>= fun a => (f a).run handler := by
  show (x.bind f).run handler = _
  induction x with
  | done a => rfl
  | stop cause => rfl
  | step s next ih =>
    rw [bind, run, run, bind_assoc]
    exact congrArg (s.run handler >>= ·) (funext ih)

@[simp]
theorem run_map (f : α → β) (x : Script α) : (f <$> x).run handler = f <$> x.run handler := by
  rw [map_eq_pure_bind, map_eq_pure_bind, run_bind]
  rfl

/-- A script of one step only does what the step does. -/
theorem run_step_done (s : Step) : (step s .done).run handler = s.run handler := by
  show (s.run handler >>= pure) = s.run handler
  rw [bind_pure]

theorem run_close (env : Environment) : (close env).run handler = Run.newScope env :=
  run_step_done handler _

theorem run_define (key : String) (value : Value) (env : Environment) :
    (define key value env).run handler = (do
      adoptScope value env
      Run.tell s!"DEFINE {key} {value.kindName}") :=
  run_step_done handler _

theorem run_branch (taken : Bool) (e : Expr) :
    (branch taken e).run handler = Run.tell s!"IF {boolText taken} -> {e.branchName}" :=
  run_step_done handler _

theorem run_enter (ref : ScopeRef) (frame : Frame) :
    (enter ref frame).run handler = (do
      let scope ← Run.scopeOf ref
      Run.enter frame
      pure scope) :=
  run_step_done handler _

theorem run_leave : leave.run handler = Run.leave := run_step_done handler _

theorem run_perform (answer : Handler σ) (name : String) (args : Bindings) :
    (perform name args).run (some answer) = (do
      Run.tellEffect name args
      Run.perform answer name args) :=
  run_step_done _ _

theorem run_mapM (f : α → Script β) (items : List α) :
    (items.mapM f).run handler = items.mapM fun a => (f a).run handler := by
  induction items with
  | nil => rfl
  | cons a rest ih => simp [List.mapM_cons, ih]

theorem run_lookup (env : Environment) (key : String) :
    (lookup env key).run handler = Run.ofResult (env.lookup key) := by
  unfold lookup Environment.lookup
  cases env.find? (.str key) with
  | none => rfl
  | some v => cases v <;> rfl

theorem run_combine (op : ArithmeticOp) (operands : List Value) :
    (combine op operands).run handler = Run.ofResult (op.fold operands) := by
  unfold combine
  cases op.fold operands <;> rfl

theorem run_compare (op : ComparisonOp) (operands : List Value) :
    (compare op operands).run handler = Value.bool <$> Run.ofResult (op.chain operands) := by
  unfold compare
  cases op.chain operands <;> rfl

/-! ### The parts of an evaluation

Each part runs as the part of `eval` of the same kind, if the scripts of the programs in it run as
these are evaluated. -/

variable {handler} {fuel : Nat} {ev : Evaluator}

section

variable (hev : ∀ e env, (ev e env).run handler = eval handler fuel e env)

include hev

theorem run_values (env : Environment) (operands : List Expr) :
    (values ev env operands).run handler = evalOperands handler fuel env operands := by
  simp only [values, evalOperands, run_mapM, run_map, hev]

theorem run_target (env : Environment) (callee : Expr) :
    (target ev env callee).run handler = callTarget handler fuel env callee := by
  cases callee with
  | «variable» key => exact run_lookup handler env key
  | _ => simp only [target, callTarget, run_map, hev]

theorem run_call (env : Environment) (callee : Expr) (arguments : List Expr) (target : Value) :
    (call ev env callee arguments target).run handler =
      callOn handler fuel env callee arguments target := by
  cases target with
  | closure ref inputs body =>
    simp only [call, callOn, run_bind, run_values hev, run_enter, run_leave, run_pure, hev,
      bind_assoc, pure_bind]
  | _ => rfl

theorem run_argument (env : Environment) (entry : Value × Arg) :
    (argument ev env entry).run handler = evalArg handler fuel env entry := by
  obtain ⟨key, arg⟩ := entry
  cases arg with
  | literal v => rfl
  | expr e => simp only [argument, evalArg, run_bind, run_pure, hev]

theorem run_next (env : Environment) (continuation : Option Expr) (answer : Value) :
    (next ev env continuation answer).run handler =
      evalNext handler fuel env continuation answer := by
  cases continuation with
  | none => rfl
  | some e => exact hev e env

end

theorem run_effect {answer : Handler σ}
    (hev : ∀ e env, (ev e env).run (some answer) = eval (some answer) fuel e env)
    (env : Environment) (name : String) (args : List (Value × Arg)) (bind : Option String)
    (continuation : Option Expr) :
    (effect ev env name args bind continuation).run (some answer) =
      evalEffect (some answer) fuel env answer name args bind continuation := by
  simp only [effect, evalEffect, run_bind, run_mapM, run_argument hev, run_perform,
    run_next hev, bind_assoc]

end Script

/-- To evaluate a program is to run its script. -/
theorem evaluation_run (handler : Option (Handler σ)) (fuel : Nat) (e : Expr) (env : Environment) :
    (evaluation handler.isSome fuel e env).run handler = eval handler fuel e env := by
  induction fuel generalizing e env with
  | zero => rfl
  | succ fuel ih =>
    cases e with
    | number n => rfl
    | string s => rfl
    | boolean b => rfl
    | «variable» key =>
      simp only [evaluation, eval, Script.run_bind, Script.run_lookup, Script.run_pure]
    | definition key value =>
      simp only [evaluation, eval, Script.run_bind, Script.run_define, Script.run_pure, ih,
        bind_assoc]
    | procedure inputs body =>
      simp only [evaluation, eval, Script.run_bind, Script.run_close, Script.run_pure]
    | arithmetic op operands =>
      simp only [evaluation, eval, Script.run_bind, Script.run_values ih, Script.run_combine,
        Script.run_pure, evalOperands]
    | comparison op operands =>
      simp only [evaluation, eval, Script.run_bind, Script.run_values ih, Script.run_compare,
        Script.run_pure, evalOperands, bind_map_left]
    | conditional condition onTrue onFalse =>
      simp only [evaluation, eval, Script.run_bind, Script.run_branch, ih]
    | call callee arguments =>
      simp only [evaluation, eval_call, Script.run_bind, Script.run_target ih, Script.run_call ih]
    | effect name args bind next =>
      cases handler with
      | none => rfl
      | some answer =>
        rw [eval_effect_some, ← Script.run_effect ih]
        rfl
    | block items => rfl

/-- So it is for programs one after the other. -/
theorem evaluations_run (handler : Option (Handler σ)) (fuel : Nat) (es : List Expr)
    (env : Environment) :
    (evaluations handler.isSome fuel es env).run handler = evalAll handler fuel es env := by
  induction es generalizing env with
  | nil => rfl
  | cons e rest ih =>
    simp only [evaluations, evalAll, Script.run_bind, Script.run_pure, evaluation_run, ih]

/-! ## Courses -/

/-- A script with the machine on which it is to run. -/
structure RunState (σ α : Type) where
  /-- What is yet to run. -/
  script : Script α
  /-- The machine. -/
  machine : Machine σ

/-- A run gets from one state to another by steps. A host that fails to answer stops it. -/
inductive Course (handler : Option (Handler σ)) : RunState σ α → List Step → RunState σ α → Prop
  | refl (c : RunState σ α) : Course handler c [] c
  | step {s : Step} {next : s.Reply → Script α} {r : s.Reply} {m m' : Machine σ}
    {steps : List Step} {c : RunState σ α} :
    (s.run handler).run.run m = (.ok r, m') → Course handler ⟨next r, m'⟩ steps c →
      Course handler ⟨.step s next, m⟩ (s :: steps) c
  | refuse {name : String} {args : Bindings} {next : Value → Script α} {failure : Failure}
    {m m' : Machine σ} :
    (Run.ask handler name args).run.run m = (.error (.failure failure), m') →
      Course handler ⟨.step (.perform name args) next, m⟩ [.perform name args]
        ⟨.stop (.refused name args failure), m'⟩

/-- How a script has ended, if it has. -/
def Script.outcome? : Script α → Option (Except Stop α)
  | .done a => some (.ok a)
  | .stop cause => some (.error cause.stop)
  | .step .. => none

variable {handler : Option (Handler σ)}

theorem Course.trans {a b c : RunState σ α} {first second : List Step}
    (hab : Course handler a first b) (hbc : Course handler b second c) :
    Course handler a (first ++ second) c := by
  induction hab with
  | refl => exact hbc
  | step hs _ ih => exact .step hs (ih hbc)
  | refuse hs =>
    cases hbc
    exact .refuse hs

/-! ### What a step does

The step lemmas say what the machine is after a step, up to what has been told. -/

/-- The scope of a closure. -/
def Machine.scope (m : Machine σ) (ref : ScopeRef) : Environment := m.scopes.getD ref .empty

/-- The scopes after a value has been bound in an environment. -/
def adopted (value : Value) (env : Environment) (scopes : Array Environment) : Array Environment :=
  match value with
  | .closure ref _ _ => scopes.setIfInBounds ref env
  | _ => scopes

theorem Run.retrace_run (told : Machine σ → String) (m : Machine σ) :
    ∃ trace, (modify fun m => if m.tracing then { m with trace := told m } else m :
      Run σ Unit).run.run m = (.ok (), { m with trace := trace }) := by
  show ∃ trace, ((.ok (), if m.tracing then { m with trace := told m } else m) :
    Except Stop Unit × Machine σ) = _
  split
  · exact ⟨told m, rfl⟩
  · exact ⟨m.trace, rfl⟩

theorem Run.tellEffect_run (name : String) (args : Bindings) (m : Machine σ) :
    ∃ trace, (Run.tellEffect name args : Run σ Unit).run.run m =
      (.ok (), { m with trace := trace }) := by
  unfold Run.tellEffect
  split
  · exact Run.retrace_run _ m
  · exact Run.retrace_run _ m

namespace Step

theorem run_close (env : Environment) (m : Machine σ) :
    ((close env).run handler).run.run m =
      (.ok m.scopes.size, { m with scopes := m.scopes.push env }) := rfl

theorem run_define (key : String) (value : Value) (env : Environment) (m : Machine σ) :
    ∃ trace, ((define key value env).run handler).run.run m =
      (.ok (), { m with scopes := adopted value env m.scopes, trace := trace }) := by
  have hadopt : (adoptScope value env : Run σ Unit).run.run m =
      (.ok (), { m with scopes := adopted value env m.scopes }) := by
    cases value <;> rfl
  obtain ⟨trace, htell⟩ := Run.retrace_run
    (fun m => m.trace ++ "[DBG] " ++ s!"DEFINE {key} {value.kindName}" ++ "\n")
    { m with scopes := adopted value env m.scopes }
  refine ⟨trace, ?_⟩
  show (do
    adoptScope value env
    Run.tell s!"DEFINE {key} {value.kindName}" : Run σ Unit).run.run m = _
  rw [Run.run_bind, hadopt]
  exact htell

theorem run_branch (taken : Bool) (e : Expr) (m : Machine σ) :
    ∃ trace, ((branch taken e).run handler).run.run m = (.ok (), { m with trace := trace }) :=
  Run.retrace_run _ m

theorem run_enter (ref : ScopeRef) (frame : Frame) (m : Machine σ) :
    ((enter ref frame).run handler).run.run m =
      (.ok (m.scope ref), { m with calls := m.calls ++ [frame] }) := rfl

theorem run_leave (m : Machine σ) :
    (leave.run handler).run.run m = (.ok (), { m with calls := m.calls.dropLast }) := rfl

end Step

/-- Asking leaves the machine as it is, but for what the host does and adds to the log. -/
theorem Run.ask_run (answer : Handler σ) (name : String) (args : Bindings) (m : Machine σ) :
    ∃ trace, (Run.ask (some answer) name args).run.run m =
      ((answer name args m.host).outcome.mapError Stop.failure,
        { m with
          log := m.log ++ (answer name args m.host).records
          trace := trace
          host := (answer name args m.host).host }) := by
  obtain ⟨trace, htell⟩ := tellEffect_run name args m
  refine ⟨trace, ?_⟩
  rw [ask, Run.run_bind, htell]
  show (Run.ofResult (answer name args m.host).outcome : Run σ Value).run.run _ = _
  cases (answer name args m.host).outcome <;> rfl

theorem Run.ask_run_none (name : String) (args : Bindings) (m : Machine σ) :
    ∃ trace, (Run.ask none name args).run.run m =
      (.error (.failure (.noEffectHandler name)), { m with trace := trace }) := by
  obtain ⟨trace, htell⟩ := tellEffect_run name args m
  refine ⟨trace, ?_⟩
  rw [ask, Run.run_bind, htell]
  rfl

/-- What the host has answered, and the machine after it. -/
theorem Run.ask_eq_ok {name : String} {args : Bindings} {m m' : Machine σ} {v : Value}
    (h : (Run.ask handler name args).run.run m = (.ok v, m')) :
    m'.scopes = m.scopes ∧ m'.calls = m.calls ∧
      ∃ answer, handler = some answer ∧ (answer name args m.host).outcome = .ok v := by
  cases handler with
  | none =>
    obtain ⟨trace, hrun⟩ := ask_run_none name args m
    rw [hrun] at h
    cases h
  | some answer =>
    obtain ⟨trace, hrun⟩ := ask_run answer name args m
    rw [hrun] at h
    obtain ⟨hout, rfl⟩ := Prod.mk.inj h
    refine ⟨rfl, rfl, answer, rfl, ?_⟩
    cases hanswer : (answer name args m.host).outcome with
    | error failure =>
      rw [hanswer] at hout
      cases hout
    | ok w =>
      rw [hanswer] at hout
      cases hout
      rfl

theorem Run.ask_eq_error {name : String} {args : Bindings} {m m' : Machine σ} {stop : Stop}
    (h : (Run.ask handler name args).run.run m = (.error stop, m')) :
    m'.scopes = m.scopes ∧ m'.calls = m.calls ∧ ∃ failure, stop = .failure failure ∧
      ∀ answer, handler = some answer → (answer name args m.host).outcome = .error failure := by
  cases handler with
  | none =>
    obtain ⟨trace, hrun⟩ := ask_run_none name args m
    rw [hrun] at h
    cases h
    exact ⟨rfl, rfl, _, rfl, fun _ h => nomatch h⟩
  | some answer =>
    obtain ⟨trace, hrun⟩ := ask_run answer name args m
    rw [hrun] at h
    obtain ⟨hout, rfl⟩ := Prod.mk.inj h
    refine ⟨rfl, rfl, ?_⟩
    cases hanswer : (answer name args m.host).outcome with
    | ok w =>
      rw [hanswer] at hout
      cases hout
    | error failure =>
      rw [hanswer] at hout
      cases hout
      refine ⟨failure, rfl, ?_⟩
      rintro _ ⟨⟩
      exact hanswer

namespace Step

/-- A step that fails asks the host. -/
theorem perform_of_error {s : Step} {m m' : Machine σ} {stop : Stop}
    (h : (s.run handler).run.run m = (.error stop, m')) :
    ∃ name args, s = perform name args := by
  cases s with
  | close env => cases h
  | define key value env =>
    obtain ⟨trace, hrun⟩ := run_define key value env m
    rw [hrun] at h
    cases h
  | branch taken e =>
    obtain ⟨trace, hrun⟩ := run_branch taken e m
    rw [hrun] at h
    cases h
  | enter ref frame => cases h
  | leave => cases h
  | perform name args => exact ⟨name, args, rfl⟩

/-- What a step makes of the scopes of the closures. -/
def onScopes : Step → Array Environment → Array Environment
  | close env, scopes => scopes.push env
  | define _ value env, scopes => adopted value env scopes
  | _, scopes => scopes

theorem scopes_eq {s : Step} {r : s.Reply} {m m' : Machine σ}
    (h : (s.run handler).run.run m = (.ok r, m')) : m'.scopes = s.onScopes m.scopes := by
  cases s with
  | close env =>
    cases h
    rfl
  | define key value env =>
    obtain ⟨trace, hrun⟩ := run_define key value env m
    rw [hrun] at h
    cases h
    rfl
  | branch taken e =>
    obtain ⟨trace, hrun⟩ := run_branch taken e m
    rw [hrun] at h
    cases h
    rfl
  | enter ref frame =>
    cases h
    rfl
  | leave =>
    cases h
    rfl
  | perform name args => exact (Run.ask_eq_ok h).1

end Step

/-! ### The course of a whole run -/

/-- The scopes of the closures are what the steps of the run have made of them, one after the
other. -/
theorem Course.scopes_eq {c c' : RunState σ α} {steps : List Step} (h : Course handler c steps c') :
    c'.machine.scopes = steps.foldl (fun scopes s => s.onScopes scopes) c.machine.scopes := by
  induction h with
  | refl => rfl
  | step hs _ ih =>
    rw [List.foldl_cons, ← Step.scopes_eq hs]
    exact ih
  | refuse hs => exact (Run.ask_eq_error hs).1

theorem Script.run_step_of_ok {s : Step} {next : s.Reply → Script α} {r : s.Reply}
    {m m' : Machine σ} (h : (s.run handler).run.run m = (.ok r, m')) :
    ((step s next).run handler).run.run m = ((next r).run handler).run.run m' := by
  show (_ >>= _ : Run σ α).run.run m = _
  rw [Run.run_bind, h]

theorem Script.run_step_of_error {s : Step} {next : s.Reply → Script α} {stop : Stop}
    {m m' : Machine σ} (h : (s.run handler).run.run m = (.error stop, m')) :
    ((step s next).run handler).run.run m = (.error stop, m') := by
  show (_ >>= _ : Run σ α).run.run m = _
  rw [Run.run_bind, h]

/-- A run goes on from each state of its course to the same end. -/
theorem Course.run_eq {c c' : RunState σ α} {steps : List Step} (h : Course handler c steps c') :
    (c.script.run handler).run.run c.machine = (c'.script.run handler).run.run c'.machine := by
  induction h with
  | refl => rfl
  | step hs _ ih =>
    rw [← ih]
    exact Script.run_step_of_ok hs
  | refuse hs => exact Script.run_step_of_error hs

/-- Every run has a course to its end. -/
theorem Script.exists_course (script : Script α) (m : Machine σ) :
    ∃ steps last, Course handler ⟨script, m⟩ steps ⟨last, ((script.run handler).run.run m).2⟩ ∧
      last.outcome? = some ((script.run handler).run.run m).1 := by
  induction script generalizing m with
  | done a => exact ⟨[], .done a, .refl _, rfl⟩
  | stop cause => exact ⟨[], .stop cause, .refl _, rfl⟩
  | step s next ih =>
    rcases hs : (s.run handler).run.run m with ⟨stop | r, m'⟩
    · rw [run_step_of_error hs]
      obtain ⟨name, args, rfl⟩ := Step.perform_of_error hs
      obtain ⟨-, -, failure, rfl, -⟩ := Run.ask_eq_error hs
      exact ⟨_, _, .refuse hs, rfl⟩
    · rw [run_step_of_ok hs]
      obtain ⟨steps, last, hcourse, hlast⟩ := ih r m'
      exact ⟨s :: steps, last, .step hs hcourse, hlast⟩

end TreeScript
