import Mathlib
import TreeScript.Proofs.Runs
import TreeScript.Proofs.Steps
import TreeScript.Session
import TreeScript.Yaml.Bundled

/-!
# The calls under way

A machine keeps the calls that have been entered and not left. An evaluation that returns leaves
them as they were. One that stops leaves behind, after those from before, the calls in the body of
which it has stopped.

To say which these are without the machine, an evaluation is taken apart. `Part t frame t'` says
that `t'` is evaluated as a part of `t`: an operand after the operands before it, a branch after its
condition, a body after its arguments. In the last case `frame` is the call with the values of these
arguments. Where an evaluation stops, at most one of its parts stops, and this one is followed to
the part that stops by itself. The frames on this way are the `Pending` calls: there is none for a
call that stops while its callee or its arguments are evaluated.

The main statement `calls_pending` says that these are the calls which a stopped evaluation leaves
behind, and that a session tells exactly these when it reports a failure, whatever has happened in
it before.
-/

namespace TreeScript

variable {σ α β : Type}

/-! ## Evaluations and their parts -/

/-- An evaluation that is begun: a program with its fuel, its environment and the machine that it
finds. -/
structure Job (σ : Type) where
  /-- The bound on the recursion. -/
  fuel : Nat
  /-- The program. -/
  expr : Expr
  /-- The environment. -/
  env : Environment
  /-- The machine at the beginning. -/
  machine : Machine σ

namespace Job

/-- How an evaluation ends. -/
def run (handler : Option (Handler σ)) (t : Job σ) :
    Except Stop (Value × Environment) × Machine σ :=
  (eval handler t.fuel t.expr t.env).run.run t.machine

/-- An evaluation ends without a value. -/
def Stops (handler : Option (Handler σ)) (t : Job σ) : Prop :=
  ∃ stop m, t.run handler = (.error stop, m)

/-- Evaluating programs in turn, all in the same environment, comes to `t`. -/
inductive Reached (handler : Option (Handler σ)) (fuel : Nat) (env : Environment) :
    List Expr → Machine σ → Job σ → Prop
  | first {e : Expr} {rest : List Expr} {m : Machine σ} :
    Reached handler fuel env (e :: rest) m ⟨fuel, e, env, m⟩
  | later {e : Expr} {rest : List Expr} {m m' : Machine σ} {r : Value × Environment} {t : Job σ} :
    (eval handler fuel e env).run.run m = (.ok r, m') → Reached handler fuel env rest m' t →
      Reached handler fuel env (e :: rest) m t

/-- `t'` is evaluated as a part of `t`; if it is the body of a call, this is the call. -/
inductive Part (handler : Option (Handler σ)) : Job σ → Option Frame → Job σ → Prop
  | value {fuel : Nat} {key : String} {value : Expr} {env : Environment} {m : Machine σ} :
    Part handler ⟨fuel + 1, .definition key value, env, m⟩ none ⟨fuel, value, env, m⟩
  | arithmetic {fuel : Nat} {op : ArithmeticOp} {operands : List Expr} {env : Environment}
    {m : Machine σ} {t : Job σ} :
    Reached handler fuel env operands m t →
      Part handler ⟨fuel + 1, .arithmetic op operands, env, m⟩ none t
  | comparison {fuel : Nat} {op : ComparisonOp} {operands : List Expr} {env : Environment}
    {m : Machine σ} {t : Job σ} :
    Reached handler fuel env operands m t →
      Part handler ⟨fuel + 1, .comparison op operands, env, m⟩ none t
  | condition {fuel : Nat} {condition onTrue onFalse : Expr} {env : Environment} {m : Machine σ} :
    Part handler ⟨fuel + 1, .conditional condition onTrue onFalse, env, m⟩ none
      ⟨fuel, condition, env, m⟩
  | branch {fuel : Nat} {condition onTrue onFalse branch : Expr} {env : Environment}
    {m m' : Machine σ} :
    (chosenBranch handler fuel env condition onTrue onFalse).run.run m = (.ok branch, m') →
      Part handler ⟨fuel + 1, .conditional condition onTrue onFalse, env, m⟩ none
        ⟨fuel, branch, env, m'⟩
  | callee {fuel : Nat} {callee : Expr} {arguments : List Expr} {env : Environment}
    {m : Machine σ} :
    (∀ key, callee ≠ .variable key) →
      Part handler ⟨fuel + 1, .call callee arguments, env, m⟩ none ⟨fuel, callee, env, m⟩
  | argument {fuel : Nat} {callee : Expr} {arguments : List Expr} {env : Environment}
    {ref : ScopeRef} {inputs : List String} {body : Expr} {m m' : Machine σ} {t : Job σ} :
    (callTarget handler fuel env callee).run.run m = (.ok (.closure ref inputs body), m') →
    Reached handler fuel env arguments m' t →
      Part handler ⟨fuel + 1, .call callee arguments, env, m⟩ none t
  | body {fuel : Nat} {callee : Expr} {arguments : List Expr} {env : Environment}
    {ref : ScopeRef} {inputs : List String} {body : Expr} {values : List Value}
    {m m₁ m₂ : Machine σ} :
    (callTarget handler fuel env callee).run.run m = (.ok (.closure ref inputs body), m₁) →
    (evalOperands handler fuel env arguments).run.run m₁ = (.ok values, m₂) →
      Part handler ⟨fuel + 1, .call callee arguments, env, m⟩ (some ⟨callee.callName, values⟩)
        ⟨fuel, body, (m₂.scopes.getD ref .empty).extendMany (bindInputs inputs values),
          { m₂ with calls := m₂.calls ++ [⟨callee.callName, values⟩] }⟩
  | effectArgument {fuel : Nat} {name : String} {args : List (Value × Arg)} {bind : Option String}
    {next : Option Expr} {env : Environment} {m : Machine σ} {t : Job σ} :
    handler.isSome = true → Reached handler fuel env (argExprs args) m t →
      Part handler ⟨fuel + 1, .effect name args bind next, env, m⟩ none t
  | next {fuel : Nat} {name : String} {args : List (Value × Arg)} {bind : Option String}
    {continuation : Expr} {env : Environment} {answer : Handler σ} {v : Value} {m m' : Machine σ} :
    handler = some answer →
    (evalAnswer handler fuel env answer name args).run.run m = (.ok v, m') →
      Part handler ⟨fuel + 1, .effect name args bind (some continuation), env, m⟩ none
        ⟨fuel, continuation, env.bindAnswer bind v, m'⟩

/-- The calls, outermost first, in the body of which an evaluation has stopped: it has stopped by
itself, or in a part of it. -/
inductive Pending (handler : Option (Handler σ)) : Job σ → List Frame → Prop
  | here {t : Job σ} :
    t.Stops handler → (∀ frame t', Part handler t frame t' → ¬ t'.Stops handler) →
      Pending handler t []
  | within {t t' : Job σ} {frame : Option Frame} {frames : List Frame} :
    Part handler t frame t' → Pending handler t' frames →
      Pending handler t (frame.toList ++ frames)

end Job

open Job (Reached Part Pending)

/-! ## Computations with parts -/

/-- A computation keeps the calls when it returns. It stops by itself, with the calls kept too, or
it stops as the one of its parts does that stops. -/
structure Run.Divides (handler : Option (Handler σ)) (x : Run σ α)
    (parts : Machine σ → Option Frame → Job σ → Prop) : Prop where
  calls : ∀ m frame t, parts m frame t → t.machine.calls = m.calls ++ frame.toList
  returns : ∀ m a m', x.run.run m = (.ok a, m') →
    m'.calls = m.calls ∧ ∀ frame t, parts m frame t → ¬ t.Stops handler
  stops : ∀ m stop m', x.run.run m = (.error stop, m') →
    (m'.calls = m.calls ∧ ∀ frame t, parts m frame t → ¬ t.Stops handler) ∨
      ∃ frame t, parts m frame t ∧ t.run handler = (.error stop, m') ∧
        ∀ frame' t', parts m frame' t' → t'.Stops handler → frame' = frame ∧ t' = t

namespace Run.Divides

variable {handler : Option (Handler σ)} {fuel : Nat} {env : Environment}
variable {x : Run σ α} {parts parts' : Machine σ → Option Frame → Job σ → Prop}

/-- The parts of a computation can be described in another way. -/
theorem congr (h : x.Divides handler parts)
    (hparts : ∀ m frame t, parts' m frame t ↔ parts m frame t) : x.Divides handler parts' := by
  have heq : parts' = parts := by
    funext m frame t
    exact propext (hparts m frame t)
  rw [heq]
  exact h

/-- What evaluates nothing has no parts. -/
theorem still (h : ∀ m, (x.run.run m).2.calls = m.calls) :
    x.Divides handler fun _ _ _ => False where
  calls := fun _ _ _ hpart => hpart.elim
  returns := by
    intro m a m' hx
    have hm := h m
    rw [hx] at hm
    exact ⟨hm, fun _ _ hpart => hpart.elim⟩
  stops := by
    intro m stop m' hx
    have hm := h m
    rw [hx] at hm
    exact .inl ⟨hm, fun _ _ hpart => hpart.elim⟩

theorem pure (a : α) : (Pure.pure a : Run σ α).Divides handler fun _ _ _ => False :=
  still fun _ => rfl

theorem throw (stop : Stop) :
    (MonadExcept.throw stop : Run σ α).Divides handler fun _ _ _ => False :=
  still fun _ => rfl

theorem ofResult (result : Result α) :
    (Run.ofResult result : Run σ α).Divides handler fun _ _ _ => False := by
  cases result with
  | ok a => exact pure a
  | error failure => exact throw _

/-- A part of the second computation is one after the first has returned. If a part of the first
stops, so does the first, and there is no second. -/
theorem bind {f : α → Run σ β} {after : α → Machine σ → Option Frame → Job σ → Prop}
    (hx : x.Divides handler parts) (hf : ∀ a, (f a).Divides handler (after a)) :
    (x >>= f).Divides handler fun m frame t =>
      parts m frame t ∨ ∃ a m', x.run.run m = (.ok a, m') ∧ after a m' frame t where
  calls := by
    rintro m frame t (hpart | ⟨a, m', hm, hpart⟩)
    · exact hx.calls m frame t hpart
    · rw [(hf a).calls m' frame t hpart, (hx.returns m a m' hm).1]
  returns := by
    intro m b m'' hrun
    rw [run_bind] at hrun
    rcases hm : x.run.run m with ⟨stop | a, m'⟩
    · rw [hm] at hrun
      cases hrun
    · rw [hm] at hrun
      obtain ⟨hcalls, hfirst⟩ := hx.returns m a m' hm
      obtain ⟨hcalls', hsecond⟩ := (hf a).returns m' b m'' hrun
      refine ⟨hcalls'.trans hcalls, ?_⟩
      rintro frame t (hpart | ⟨a', m₁, hm₁, hpart⟩)
      · exact hfirst frame t hpart
      · cases hm₁
        exact hsecond frame t hpart
  stops := by
    intro m stop m'' hrun
    rw [run_bind] at hrun
    rcases hm : x.run.run m with ⟨stop' | a, m'⟩
    · rw [hm] at hrun
      cases hrun
      rcases hx.stops m stop m'' hm with ⟨hcalls, hnone⟩ | ⟨frame, t, hpart, ht, hunique⟩
      · refine .inl ⟨hcalls, ?_⟩
        rintro frame t (hpart | ⟨a, m', hm', -⟩)
        · exact hnone frame t hpart
        · cases hm'
      · refine .inr ⟨frame, t, .inl hpart, ht, ?_⟩
        rintro frame' t' (hpart' | ⟨a, m', hm', -⟩) hstops
        · exact hunique frame' t' hpart' hstops
        · cases hm'
    · rw [hm] at hrun
      obtain ⟨hcalls, hfirst⟩ := hx.returns m a m' hm
      rcases (hf a).stops m' stop m'' hrun with ⟨hcalls', hnone⟩ | ⟨frame, t, hpart, ht, hunique⟩
      · refine .inl ⟨hcalls'.trans hcalls, ?_⟩
        rintro frame t (hpart | ⟨a', m₁, hm₁, hpart⟩)
        · exact hfirst frame t hpart
        · cases hm₁
          exact hnone frame t hpart
      · refine .inr ⟨frame, t, .inr ⟨a, m', rfl, hpart⟩, ht, ?_⟩
        rintro frame' t' (hpart' | ⟨a', m₁, hm₁, hpart'⟩) hstops
        · exact absurd hstops (hfirst frame' t' hpart')
        · cases hm₁
          exact hunique frame' t' hpart' hstops

/-- What evaluates nothing adds no parts to the computation that it follows. -/
theorem thenStill {f : α → Run σ β} (hx : x.Divides handler parts)
    (hf : ∀ a, (f a).Divides handler fun _ _ _ => False) : (x >>= f).Divides handler parts :=
  (hx.bind hf).congr fun m frame t => by simp

theorem andPure (hx : x.Divides handler parts) (f : α → β) :
    (x >>= fun a => Pure.pure (f a)).Divides handler parts :=
  hx.thenStill fun a => pure (f a)

theorem map (hx : x.Divides handler parts) (f : α → β) : (f <$> x).Divides handler parts := by
  rw [map_eq_pure_bind]
  exact hx.andPure f

theorem tell (line : String) : (Run.tell line : Run σ Unit).Divides handler fun _ _ _ => False := by
  refine still fun m => ?_
  show (if m.tracing then { m with trace := m.trace ++ "[DBG] " ++ line ++ "\n" } else m).calls = _
  split <;> rfl

theorem tellEffect (name : String) (args : Bindings) :
    (Run.tellEffect name args : Run σ Unit).Divides handler fun _ _ _ => False := by
  unfold Run.tellEffect
  split
  · exact tell _
  · refine still fun m => ?_
    show (if m.tracing then { m with trace := m.trace ++ "[DBG] EFFECT " ++ name ++ " " }
      else m).calls = _
    split <;> rfl

theorem adoptScope (v : Value) (env : Environment) :
    (adoptScope v env : Run σ Unit).Divides handler fun _ _ _ => False := by
  cases v <;> exact still fun _ => rfl

theorem perform (answer : Handler σ) (name : String) (args : Bindings) :
    (Run.perform answer name args).Divides handler fun _ _ _ => False := by
  refine still fun m => ?_
  show ((Run.ofResult (answer name args m.host).outcome : Run σ Value).run.run
    { m with
      log := m.log ++ (answer name args m.host).records
      host := (answer name args m.host).host }).2.calls = m.calls
  cases (answer name args m.host).outcome <;> rfl

/-! ### The parts of an evaluation -/

/-- Evaluations with this much fuel keep the calls when they return. -/
def Keeping (handler : Option (Handler σ)) (fuel : Nat) : Prop :=
  ∀ e env m r m', (eval handler fuel e env).run.run m = (.ok r, m') → m'.calls = m.calls

/-- The evaluation of a program has itself for a part. -/
theorem job (hkeeping : Keeping handler fuel) (e : Expr) (env : Environment) :
    (eval handler fuel e env).Divides handler fun m frame t =>
      frame = none ∧ t = ⟨fuel, e, env, m⟩ where
  calls := by
    rintro m _ _ ⟨rfl, rfl⟩
    simp
  returns := by
    intro m r m' hrun
    refine ⟨hkeeping e env m r m' hrun, ?_⟩
    rintro _ _ ⟨rfl, rfl⟩ ⟨stop, m'', hstops⟩
    cases hrun.symm.trans hstops
  stops := by
    intro m stop m' hrun
    refine .inr ⟨none, ⟨fuel, e, env, m⟩, ⟨rfl, rfl⟩, hrun, ?_⟩
    rintro _ _ ⟨rfl, rfl⟩ -
    exact ⟨rfl, rfl⟩

theorem reached_nil {m : Machine σ} {t : Job σ} : ¬ Reached handler fuel env [] m t := nofun

theorem reached_cons {e : Expr} {rest : List Expr} {m : Machine σ} {t : Job σ} :
    Reached handler fuel env (e :: rest) m t ↔
      t = ⟨fuel, e, env, m⟩ ∨ ∃ r m', (eval handler fuel e env).run.run m = (.ok r, m') ∧
        Reached handler fuel env rest m' t := by
  constructor
  · intro h
    cases h with
    | first => exact .inl rfl
    | later he hrest => exact .inr ⟨_, _, he, hrest⟩
  · rintro (rfl | ⟨r, m', he, hrest⟩)
    · exact .first
    · exact .later he hrest

/-- The parts of programs evaluated in turn. What is made of a value after its evaluation does not
count. -/
theorem inTurn {γ : Type} (hkeeping : Keeping handler fuel) (env : Environment)
    (evalItem : γ → Run σ β) (expr? : γ → Option Expr)
    (hitem : ∀ item, match expr? item with
      | some e => ∃ f : Value × Environment → β, evalItem item =
          (eval handler fuel e env >>= fun r => Pure.pure (f r))
      | none => ∃ b, evalItem item = Pure.pure b)
    (items : List γ) :
    (items.mapM evalItem).Divides handler fun m frame t =>
      frame = none ∧ Reached handler fuel env (items.filterMap expr?) m t := by
  induction items with
  | nil => exact (pure []).congr fun m frame t => by simp [reached_nil]
  | cons item rest ih =>
    rw [List.mapM_cons]
    have hi := hitem item
    cases hexpr : expr? item with
    | none =>
      rw [hexpr] at hi
      obtain ⟨b, hb⟩ := hi
      rw [hb, pure_bind, List.filterMap_cons_none hexpr]
      exact ih.andPure _
    | some e =>
      rw [hexpr] at hi
      obtain ⟨f, hf⟩ := hi
      rw [hf, bind_assoc, List.filterMap_cons_some hexpr]
      simp only [pure_bind]
      refine ((job hkeeping e env).bind fun r => ih.andPure _).congr fun m frame t => ?_
      rw [reached_cons]
      constructor
      · rintro ⟨rfl, rfl | ⟨r, m', he, hrest⟩⟩
        · exact .inl ⟨rfl, rfl⟩
        · exact .inr ⟨r, m', he, rfl, hrest⟩
      · rintro (⟨rfl, rfl⟩ | ⟨r, m', he, rfl, hrest⟩)
        · exact ⟨rfl, .inl rfl⟩
        · exact ⟨rfl, .inr ⟨r, m', he, hrest⟩⟩

theorem operands (hkeeping : Keeping handler fuel) (env : Environment) (es : List Expr) :
    (evalOperands handler fuel env es).Divides handler fun m frame t =>
      frame = none ∧ Reached handler fuel env es m t := by
  have h := inTurn hkeeping env (fun e => Prod.fst <$> eval handler fuel e env) some
    (fun e => ⟨Prod.fst, map_eq_pure_bind _ _⟩) es
  rwa [List.filterMap_some] at h

theorem effectArguments (hkeeping : Keeping handler fuel) (env : Environment)
    (args : List (Value × Arg)) :
    (args.mapM (evalArg handler fuel env)).Divides handler fun m frame t =>
      frame = none ∧ Reached handler fuel env (argExprs args) m t := by
  refine inTurn hkeeping env _ _ (fun entry => ?_) args
  obtain ⟨key, arg⟩ := entry
  cases arg with
  | literal v => exact ⟨(key, v), rfl⟩
  | expr e => exact ⟨fun r => (key, r.1), rfl⟩

theorem target (hkeeping : Keeping handler fuel) (env : Environment) (callee : Expr) :
    (callTarget handler fuel env callee).Divides handler fun m frame t =>
      (∀ key, callee ≠ .variable key) ∧ frame = none ∧ t = ⟨fuel, callee, env, m⟩ := by
  cases callee with
  | «variable» key =>
    refine (ofResult (env.lookup key)).congr fun m frame t => ?_
    exact ⟨fun h => h.1 key rfl, False.elim⟩
  | _ => exact ((job hkeeping _ env).map Prod.fst).congr fun m frame t => by simp

/-- The body of a call. The call is entered before it and left after it, so that the call is among
those that the body finds, and stays there if the body stops. -/
theorem entered (hkeeping : Keeping handler fuel) (frame : Frame) (body : Expr)
    (env after : Environment) :
    (do
      Run.enter frame
      let (v, _) ← eval handler fuel body env
      Run.leave
      Pure.pure (v, after) : Run σ (Value × Environment)).Divides handler fun m frame' t =>
        frame' = some frame ∧ t = ⟨fuel, body, env, { m with calls := m.calls ++ [frame] }⟩ := by
  have hrun : ∀ m : Machine σ,
      (do
        Run.enter frame
        let (v, _) ← eval handler fuel body env
        Run.leave
        Pure.pure (v, after) : Run σ (Value × Environment)).run.run m =
      match (eval handler fuel body env).run.run { m with calls := m.calls ++ [frame] } with
      | (.ok r, m') => (.ok (r.1, after), { m' with calls := m'.calls.dropLast })
      | (.error stop, m') => (.error stop, m') := by
    intro m
    rw [run_bind]
    show (_ >>= _ : Run σ (Value × Environment)).run.run { m with calls := m.calls ++ [frame] } = _
    rw [run_bind]
    rcases (eval handler fuel body env).run.run { m with calls := m.calls ++ [frame] } with
      ⟨_ | ⟨_, _⟩, _⟩ <;> rfl
  constructor
  · rintro m _ _ ⟨rfl, rfl⟩
    rfl
  · intro m r m' hreturns
    rw [hrun] at hreturns
    rcases hbody : (eval handler fuel body env).run.run { m with calls := m.calls ++ [frame] } with
      ⟨stop | v, m₁⟩
    · rw [hbody] at hreturns
      cases hreturns
    · rw [hbody] at hreturns
      cases hreturns
      constructor
      · show m₁.calls.dropLast = m.calls
        rw [hkeeping body env _ v m₁ hbody, List.dropLast_concat]
      · rintro _ _ ⟨rfl, rfl⟩ ⟨stop, m₂, hstops⟩
        cases hbody.symm.trans hstops
  · intro m stop m' hstops
    rw [hrun] at hstops
    rcases hbody : (eval handler fuel body env).run.run { m with calls := m.calls ++ [frame] } with
      ⟨stop' | v, m₁⟩
    · rw [hbody] at hstops
      cases hstops
      refine .inr ⟨some frame, _, ⟨rfl, rfl⟩, hbody, ?_⟩
      rintro _ _ ⟨rfl, rfl⟩ -
      exact ⟨rfl, rfl⟩
    · rw [hbody] at hstops
      cases hstops

theorem call (hkeeping : Keeping handler fuel) (env : Environment) (callee : Expr)
    (arguments : List Expr) (target : Value) :
    (callOn handler fuel env callee arguments target).Divides handler fun m frame t =>
      ∃ ref inputs body, target = .closure ref inputs body ∧
        (frame = none ∧ Reached handler fuel env arguments m t ∨
          ∃ values m', (evalOperands handler fuel env arguments).run.run m = (.ok values, m') ∧
            frame = some ⟨callee.callName, values⟩ ∧
            t = ⟨fuel, body, (m'.scopes.getD ref .empty).extendMany (bindInputs inputs values),
              { m' with calls := m'.calls ++ [⟨callee.callName, values⟩] }⟩) := by
  cases target with
  | closure ref inputs body =>
    unfold callOn
    refine ((operands hkeeping env arguments).bind fun values =>
      (still fun _ => rfl :
        (Run.scopeOf ref : Run σ Environment).Divides handler _).bind fun scope =>
        entered hkeeping ⟨callee.callName, values⟩ body _ env).congr fun m frame t => ?_
    constructor
    · rintro ⟨_, _, _, ⟨⟩, hargument | ⟨values, m', hvalues, hbody⟩⟩
      · exact .inl hargument
      · exact .inr ⟨values, m', hvalues, .inr ⟨_, m', rfl, hbody⟩⟩
    · rintro (hargument | ⟨values, m', hvalues, hnone | ⟨scope, m₁, ⟨⟩, hbody⟩⟩)
      · exact ⟨ref, inputs, body, rfl, .inl hargument⟩
      · exact hnone.elim
      · exact ⟨ref, inputs, body, rfl, .inr ⟨values, m', hvalues, hbody⟩⟩
  | _ =>
    refine (throw _).congr fun m frame t => ?_
    constructor
    · rintro ⟨_, _, _, ⟨⟩, _⟩
    · exact False.elim

theorem answer (hkeeping : Keeping handler fuel) (env : Environment) (answer : Handler σ)
    (name : String) (args : List (Value × Arg)) :
    (evalAnswer handler fuel env answer name args).Divides handler fun m frame t =>
      frame = none ∧ Reached handler fuel env (argExprs args) m t :=
  (effectArguments hkeeping env args).thenStill fun values =>
    (tellEffect name values).thenStill fun _ => perform answer name values

theorem branch (hkeeping : Keeping handler fuel) (env : Environment)
    (condition onTrue onFalse : Expr) :
    (chosenBranch handler fuel env condition onTrue onFalse).Divides handler fun m frame t =>
      frame = none ∧ t = ⟨fuel, condition, env, m⟩ :=
  (job hkeeping condition env).thenStill fun _ => (tell _).thenStill fun _ => pure _

end Run.Divides

/-! ## Evaluation -/

section Evaluation

variable {handler : Option (Handler σ)}

open Run (Divides)

/-- An evaluation has the parts that `Part` says. The induction is on the fuel: that the calls are
kept by the parts which return is what the parts after them need. -/
theorem eval_divides (handler : Option (Handler σ)) (fuel : Nat) (e : Expr) (env : Environment) :
    (eval handler fuel e env).Divides handler fun m => Part handler ⟨fuel, e, env, m⟩ := by
  induction fuel generalizing e env with
  | zero => exact (Divides.throw _).congr fun m frame t => ⟨nofun, False.elim⟩
  | succ fuel ih =>
    have hkeeping : Divides.Keeping handler fuel := fun e env m r m' hrun =>
      ((ih e env).returns m r m' hrun).1
    cases e with
    -- these have no parts
    | number n => exact (Divides.pure _).congr fun m frame t => ⟨nofun, False.elim⟩
    | string s => exact (Divides.pure _).congr fun m frame t => ⟨nofun, False.elim⟩
    | boolean b => exact (Divides.pure _).congr fun m frame t => ⟨nofun, False.elim⟩
    | «variable» key =>
      exact ((Divides.ofResult _).andPure _).congr fun m frame t => ⟨nofun, False.elim⟩
    | procedure inputs body =>
      exact (Divides.still fun _ => rfl).congr fun m frame t => ⟨nofun, False.elim⟩
    | block items => exact (Divides.throw _).congr fun m frame t => ⟨nofun, False.elim⟩
    | definition key value =>
      refine ((Divides.job hkeeping value env).thenStill fun r =>
        (Divides.adoptScope r.1 _).thenStill fun _ =>
          (Divides.tell _).thenStill fun _ => Divides.pure _).congr fun m frame t => ?_
      constructor
      · rintro ⟨⟩
        exact ⟨rfl, rfl⟩
      · rintro ⟨rfl, rfl⟩
        exact .value
    | arithmetic op operands =>
      refine ((Divides.operands hkeeping env operands).thenStill fun values =>
        (Divides.ofResult _).andPure _).congr fun m frame t => ?_
      constructor
      · intro hpart
        cases hpart with
        | arithmetic hreached => exact ⟨rfl, hreached⟩
      · rintro ⟨rfl, hreached⟩
        exact .arithmetic hreached
    | comparison op operands =>
      refine ((Divides.operands hkeeping env operands).thenStill fun values =>
        (Divides.ofResult _).andPure _).congr fun m frame t => ?_
      constructor
      · intro hpart
        cases hpart with
        | comparison hreached => exact ⟨rfl, hreached⟩
      · rintro ⟨rfl, hreached⟩
        exact .comparison hreached
    | conditional condition onTrue onFalse =>
      rw [eval_conditional]
      refine ((Divides.branch hkeeping env condition onTrue onFalse).bind fun branch =>
        Divides.job hkeeping branch env).congr fun m frame t => ?_
      constructor
      · intro hpart
        cases hpart with
        | condition => exact .inl ⟨rfl, rfl⟩
        | branch hbranch => exact .inr ⟨_, _, hbranch, rfl, rfl⟩
      · rintro (⟨rfl, rfl⟩ | ⟨branch, m', hbranch, rfl, rfl⟩)
        · exact .condition
        · exact .branch hbranch
    | call callee arguments =>
      rw [eval_call]
      refine ((Divides.target hkeeping env callee).bind
        (Divides.call hkeeping env callee arguments)).congr fun m frame t => ?_
      constructor
      · intro hpart
        cases hpart with
        | callee hcallee => exact .inl ⟨hcallee, rfl, rfl⟩
        | argument htarget hreached =>
          exact .inr ⟨_, _, htarget, _, _, _, rfl, .inl ⟨rfl, hreached⟩⟩
        | body htarget hvalues =>
          exact .inr ⟨_, _, htarget, _, _, _, rfl, .inr ⟨_, _, hvalues, rfl, rfl⟩⟩
      · rintro (⟨hcallee, rfl, rfl⟩ | ⟨_, m', htarget, ref, inputs, body, rfl,
          ⟨rfl, hreached⟩ | ⟨values, m'', hvalues, rfl, rfl⟩⟩)
        · exact .callee hcallee
        · exact .argument htarget hreached
        · exact .body htarget hvalues
    | effect name args bind next =>
      cases handler with
      | none =>
        -- without a handler the arguments are not evaluated at all
        refine (Divides.throw _).congr fun m frame t => ⟨fun hpart => ?_, False.elim⟩
        cases hpart with
        | effectArgument hhandler _ => cases hhandler
        | next hhandler _ => cases hhandler
      | some answer =>
        rw [eval_effect_some, evalEffect_eq]
        have hanswer := Divides.answer hkeeping env answer name args
        cases next with
        | none =>
          refine (hanswer.andPure _).congr fun m frame t => ?_
          constructor
          · intro hpart
            cases hpart with
            | effectArgument _ hreached => exact ⟨rfl, hreached⟩
          · rintro ⟨rfl, hreached⟩
            exact .effectArgument rfl hreached
        | some continuation =>
          refine (hanswer.bind fun v => Divides.job hkeeping continuation _).congr
            fun m frame t => ?_
          constructor
          · intro hpart
            cases hpart with
            | effectArgument _ hreached => exact .inl ⟨rfl, hreached⟩
            | next hhandler hrun =>
              cases hhandler
              exact .inr ⟨_, _, hrun, rfl, rfl⟩
          · rintro (⟨rfl, hreached⟩ | ⟨v, m', hrun, rfl, rfl⟩)
            · exact .effectArgument rfl hreached
            · exact .next rfl hrun

/-- A part of an evaluation has less fuel. -/
theorem Job.Reached.fuel_eq {fuel : Nat} {env : Environment} {es : List Expr} {m : Machine σ}
    {t : Job σ} (h : Reached handler fuel env es m t) : t.fuel = fuel := by
  induction h with
  | first => rfl
  | later _ _ ih => exact ih

theorem Job.Part.fuel_eq {t t' : Job σ} {frame : Option Frame} (h : Part handler t frame t') :
    t.fuel = t'.fuel + 1 := by
  cases h with
  | arithmetic hreached => rw [hreached.fuel_eq]
  | comparison hreached => rw [hreached.fuel_eq]
  | argument _ hreached => rw [hreached.fuel_eq]
  | effectArgument _ hreached => rw [hreached.fuel_eq]
  | _ => rfl

/-- An evaluation stops if a part of it does. -/
theorem Job.Part.stops {t t' : Job σ} {frame : Option Frame} (hpart : Part handler t frame t')
    (h : t'.Stops handler) : t.Stops handler := by
  rcases hrun : t.run handler with ⟨stop | r, m⟩
  · exact ⟨stop, m, hrun⟩
  · exact absurd h (((eval_divides handler t.fuel t.expr t.env).returns _ r m hrun).2 _ _ hpart)

theorem Job.Pending.stops {t : Job σ} {frames : List Frame} (h : Pending handler t frames) :
    t.Stops handler := by
  induction h with
  | here hstops _ => exact hstops
  | within hpart _ ih => exact hpart.stops ih

/-- An evaluation that stops has one list of pending calls, and leaves these behind. The induction
is on the fuel, along the parts that stop. -/
theorem exists_pending (t : Job σ) {stop : Stop} {m : Machine σ}
    (hrun : t.run handler = (.error stop, m)) :
    ∃ frames, m.calls = t.machine.calls ++ frames ∧ ∀ fs, Pending handler t fs ↔ fs = frames := by
  induction hfuel : t.fuel using Nat.strongRecOn generalizing t with
  | ind fuel ih =>
    have hdivides := eval_divides handler t.fuel t.expr t.env
    rcases hdivides.stops t.machine stop m hrun with
      ⟨hcalls, hnone⟩ | ⟨frame, t', hpart, hrun', hunique⟩
    · refine ⟨[], by rw [hcalls, List.append_nil], fun fs => ⟨fun hpending => ?_, ?_⟩⟩
      · cases hpending with
        | here => rfl
        | within hpart hpending => exact absurd hpending.stops (hnone _ _ hpart)
      · rintro rfl
        exact .here ⟨stop, m, hrun⟩ hnone
    · have hlt : t'.fuel < fuel := by
        rw [← hfuel, Part.fuel_eq hpart]
        exact Nat.lt_succ_self _
      obtain ⟨frames, hcalls, hpending⟩ := ih t'.fuel hlt t' hrun' rfl
      have hentered : t'.machine.calls = t.machine.calls ++ frame.toList :=
        hdivides.calls t.machine frame t' hpart
      refine ⟨frame.toList ++ frames, ?_, fun fs => ⟨fun h => ?_, ?_⟩⟩
      · rw [hcalls, hentered, List.append_assoc]
      · cases h with
        | here _ hnone => exact absurd ⟨stop, m, hrun'⟩ (hnone _ _ hpart)
        | within hpart₁ h₁ =>
          obtain ⟨rfl, rfl⟩ := hunique _ _ hpart₁ h₁.stops
          rw [(hpending _).1 h₁]
      · rintro rfl
        exact .within hpart ((hpending _).2 rfl)

end Evaluation

/-! ## Programs run in order, and sessions -/

/-- Running programs in order, each in the environment after the one before it, comes to `t`. -/
inductive Job.Comes (handler : Option (Handler σ)) (fuel : Nat) :
    List Expr → Environment → Machine σ → Job σ → Prop
  | first {e : Expr} {rest : List Expr} {env : Environment} {m : Machine σ} :
    Comes handler fuel (e :: rest) env m ⟨fuel, e, env, m⟩
  | later {e : Expr} {rest : List Expr} {env after : Environment} {v : Value} {m m' : Machine σ}
    {t : Job σ} :
    (eval handler fuel e env).run.run m = (.ok (v, after), m') →
      Comes handler fuel rest after m' t → Comes handler fuel (e :: rest) env m t

open Job (Comes)

/-- A run of programs that stops has come to one that stops, with the calls from before it. -/
theorem evalAll_stops {handler : Option (Handler σ)} {fuel : Nat} {es : List Expr}
    {env : Environment} {m m' : Machine σ} {stop : Stop}
    (hrun : (evalAll handler fuel es env).run.run m = (.error stop, m')) :
    ∃ t, Comes handler fuel es env m t ∧ t.run handler = (.error stop, m') ∧
      t.machine.calls = m.calls := by
  induction es generalizing env m with
  | nil => cases hrun
  | cons e rest ih =>
    unfold evalAll at hrun
    rw [Run.run_bind] at hrun
    rcases he : (eval handler fuel e env).run.run m with ⟨stop' | ⟨v, after⟩, m₁⟩
    · rw [he] at hrun
      cases hrun
      exact ⟨⟨fuel, e, env, m⟩, .first, he, rfl⟩
    · rw [he] at hrun
      dsimp only at hrun
      rw [Run.run_bind] at hrun
      rcases hrest : (evalAll handler fuel rest after).run.run m₁ with ⟨stop' | r, m₂⟩
      · rw [hrest] at hrun
        cases hrun
        obtain ⟨t, hcomes, ht, hcalls⟩ := ih hrest
        refine ⟨t, .later he hcomes, ht, ?_⟩
        rw [hcalls, ((eval_divides handler fuel e env).returns m _ m₁ he).1]
      · rw [hrest] at hrun
        cases hrun

/-- A failure in words, with the calls in the body of which it has happened. -/
def Failure.Told (failure : Failure) (frames : List Frame) (message : String) : Prop :=
  match frames with
  | [] => message = failure.report
  | _ :: _ => ∃ texts, frames.mapM Frame.text = .ok texts ∧
    message = failure.report ++ "\n" ++ ("SAJ stacktrace: " ++ " ".intercalate texts)

namespace Session

/-- The programs that a session is given, if they can be read and decoded. -/
def Given (yaml : Yaml.Library) (program : Value) (es : List Expr) : Prop :=
  ∃ tree, parse yaml program = .ok tree ∧ (programs tree).mapM Expr.ofValue = .ok es

/-- A program that cannot be read or decoded, with the report of it, which tells no calls. -/
def Refused (yaml : Yaml.Library) (program : Value) (message : String) : Prop :=
  (∃ failure, parse yaml program = .error failure ∧
      message = s!"ParseError: {failure.message}") ∨
    ∃ tree flaw, parse yaml program = .ok tree ∧
      (programs tree).mapM Expr.ofValue = .error (.malformed flaw) ∧
      message = s!"MalformedProgram: {flaw.message}"

/-- A report of a stopped run tells the calls under way. -/
theorem told_of_stopped {s t : Session σ} {stop : Stop} {message : String}
    (h : s.stopped stop = (.ok (.error message), t)) :
    ∃ failure, stop = .failure failure ∧ failure.Told s.machine.calls message := by
  cases stop with
  | outOfFuel => cases h
  | failure failure =>
    refine ⟨failure, rfl, ?_⟩
    rcases hcalls : s.machine.calls with _ | ⟨frame, rest⟩
    · simp only [stopped, hcalls] at h
      cases h
      rfl
    · rcases htexts : (frame :: rest).mapM Frame.text with inner | texts
      · have hstack : stackText (frame :: rest) = .error inner := by
          show (_ >>= _ : Result String) = _
          rw [htexts]
          rfl
        simp only [stopped, hcalls, hstack] at h
        cases h
      · have hstack : stackText (frame :: rest) =
            .ok ("SAJ stacktrace: " ++ " ".intercalate texts) := by
          show (_ >>= _ : Result String) = _
          rw [htexts]
          rfl
        simp only [stopped, hcalls, hstack] at h
        refine ⟨texts, htexts, ?_⟩
        split at h
        next heq => cases heq
        next heq =>
          have hempty := congrArg String.length (Except.ok.inj heq)
          simp at hempty
        next heq =>
          obtain rfl := Except.ok.inj heq
          cases h
          rfl

/-- What a session does with a program: it runs it, reports that it is none, or passes on why it
cannot tell. -/
theorem handle_cases (s : Session σ) (fuel : Nat) (program : Value) :
    (∃ es, Given s.yaml program es ∧ s.handle fuel program = s.fresh.run fuel es) ∨
    (∃ message, Refused s.yaml program message ∧ s.handle fuel program = s.fresh.fail message) ∨
    ∃ failure, s.handle fuel program = (.error (.failure failure), s.fresh) := by
  unfold handle
  rcases hparse : parse s.yaml program with failure | tree
  · dsimp only
    split
    · exact .inr (.inl ⟨_, .inl ⟨failure, hparse, rfl⟩, rfl⟩)
    · exact .inr (.inr ⟨failure, rfl⟩)
  · dsimp only
    rcases hdecode : (programs tree).mapM Expr.ofValue with failure | es
    · cases failure with
      | malformed flaw => exact .inr (.inl ⟨_, .inr ⟨tree, flaw, hparse, hdecode, rfl⟩, rfl⟩)
      | _ => exact .inr (.inr ⟨_, rfl⟩)
    · exact .inl ⟨es, ⟨tree, hparse, hdecode⟩, rfl⟩

theorem run_cases (s : Session σ) (fuel : Nat) (es : List Expr) :
    (∃ results env m, (evalAll s.handler fuel es s.env).run.run s.machine =
        (.ok (results, env), m) ∧
      s.run fuel es = (.ok (.success results), { s with env := env, machine := m })) ∨
    ∃ stop m, (evalAll s.handler fuel es s.env).run.run s.machine = (.error stop, m) ∧
      s.run fuel es = { s with machine := m }.stopped stop := by
  unfold run
  rcases (evalAll s.handler fuel es s.env).run.run s.machine with ⟨stop | ⟨results, env⟩, m⟩
  · exact .inr ⟨stop, m, rfl, rfl⟩
  · exact .inl ⟨results, env, m, rfl, rfl⟩

/-- A run that has stopped does not succeed. -/
theorem stopped_ne_success (s t : Session σ) (stop : Stop) (results : List Value) :
    s.stopped stop ≠ (.ok (.success results), t) := by
  cases stop with
  | outOfFuel => exact nofun
  | failure failure =>
    unfold stopped
    dsimp only
    split <;> exact nofun

/-- A report of a failure is one that there is no program, or one of a run that has stopped. -/
theorem handle_eq_error {s t : Session σ} {fuel : Nat} {program : Value} {message : String}
    (h : s.handle fuel program = (.ok (.error message), t)) :
    Refused s.yaml program message ∨
      ∃ es stop m, Given s.yaml program es ∧
        (evalAll s.handler fuel es s.env).run.run s.fresh.machine = (.error stop, m) ∧
        { s.fresh with machine := m }.stopped stop = (.ok (.error message), t) := by
  rcases s.handle_cases fuel program with
    ⟨es, hgiven, heq⟩ | ⟨message', hrefused, heq⟩ | ⟨failure, heq⟩
  · rcases s.fresh.run_cases fuel es with ⟨results, env, m, -, hrun⟩ | ⟨stop, m, heval, hrun⟩
    · cases (heq.trans hrun).symm.trans h
    · exact .inr ⟨es, stop, m, hgiven, heval, (heq.trans hrun).symm.trans h⟩
  · cases heq.symm.trans h
    exact .inl hrefused
  · cases heq.symm.trans h

end Session

/-- An evaluation that returns leaves the calls under way as they were, and one that stops adds to
them the calls that are pending, of which there is one list. A session that reports the failure of
a run tells the pending calls of the program that has stopped, and none from before. -/
theorem calls_pending (handler : Option (Handler σ)) :
    (∀ (t : Job σ) r m, t.run handler = (.ok r, m) → m.calls = t.machine.calls) ∧
    (∀ (t : Job σ) stop m, t.run handler = (.error stop, m) →
      ∃ frames, m.calls = t.machine.calls ++ frames ∧ ∀ fs, Pending handler t fs ↔ fs = frames) ∧
    ∀ (s t : Session σ) fuel program message, s.handler = handler →
      s.handle fuel program = (.ok (.error message), t) →
      Session.Refused s.yaml program message ∨
      ∃ es job failure m frames, Session.Given s.yaml program es ∧
        Comes handler fuel es s.env s.fresh.machine job ∧
        job.run handler = (.error (.failure failure), m) ∧
        (∀ fs, Pending handler job fs ↔ fs = frames) ∧ failure.Told frames message := by
  refine ⟨?_, fun t stop m hrun => exists_pending t hrun, ?_⟩
  · intro t r m hrun
    exact ((eval_divides handler t.fuel t.expr t.env).returns _ r m hrun).1
  · rintro s t fuel program message rfl hhandle
    rcases Session.handle_eq_error hhandle with hnone | ⟨es, stop, m, hgiven, hrun, hstopped⟩
    · exact .inl hnone
    · obtain ⟨failure, rfl, htold⟩ := Session.told_of_stopped hstopped
      obtain ⟨job, hcomes, hjob, hcalls⟩ := evalAll_stops hrun
      obtain ⟨frames, hframes, hpending⟩ := exists_pending job hjob
      have hleft : m.calls = frames := by
        rw [hframes, hcalls]
        rfl
      exact .inr ⟨es, job, failure, m, frames, hgiven, hcomes, hjob, hpending, hleft ▸ htold⟩

/-- The body of a procedure that fails when it is called. -/
def failing : Expr := .arithmetic .add [.variable "x", .variable "nope"]

/-- Binds `f` to a procedure that fails when it is called. -/
def withFailing : Environment := .extend .empty "f" (.closure 0 ["x"] failing)

/-- A session in which a call of `f`, made by another procedure, has failed. -/
def afterFailure : Session Unit where
  yaml := .bundled
  handler := none
  env := withFailing
  machine := ⟨#[withFailing, withFailing], [⟨"<procedure>", []⟩, ⟨"f", [.int 1]⟩],
    [], false, "", ()⟩

/-- Calls `f` with the value of a call that fails. -/
def failInArgument : Expr :=
  .call (.variable "f") [.call (.procedure [] (.call (.variable "f") [.number (.int 2)])) []]

/-- The outer call is not pending when its argument fails, and the calls from before are not
told. -/
theorem calls_pending_argument :
    let t : Job Unit := ⟨6, failInArgument, withFailing, afterFailure.machine⟩
    let message := (Failure.undefinedVariable "nope").report ++ "\n" ++
      "SAJ stacktrace: (<procedure>) (f 2)"
    (∀ fs, Pending none t fs ↔ fs = [⟨"<procedure>", []⟩, ⟨"f", [.int 2]⟩]) ∧
    ∃ s, afterFailure.handle 6 (.node failInArgument) = (.ok (.error message), s) ∧
      ∃ es job failure m frames, Session.Given .bundled (.node failInArgument) es ∧
        Comes none 6 es withFailing afterFailure.fresh.machine job ∧
        job.run none = (.error (.failure failure), m) ∧
        (∀ fs, Pending none job fs ↔ fs = frames) ∧ failure.Told frames message := by
  intro t message
  obtain ⟨-, hstops, hsession⟩ := calls_pending (none : Option (Handler Unit))
  constructor
  · have hrun : t.run none = (.error (.failure (.undefinedVariable "nope")),
        ⟨#[withFailing, withFailing, withFailing],
          afterFailure.machine.calls ++ [⟨"<procedure>", []⟩, ⟨"f", [.int 2]⟩],
          [], false, "", ()⟩) := by
      cbv
    obtain ⟨frames, hcalls, hpending⟩ := hstops t _ _ hrun
    obtain rfl := List.append_cancel_left hcalls
    exact hpending
  · have hrun : (evalAll none 6 [failInArgument] withFailing).run.run afterFailure.fresh.machine =
        (.error (.failure (.undefinedVariable "nope")),
          ⟨#[withFailing, withFailing, withFailing], [⟨"<procedure>", []⟩, ⟨"f", [.int 2]⟩], [],
            false, "", ()⟩) := by
      cbv
    have hstack : stackText [⟨"<procedure>", []⟩, ⟨"f", [.int 2]⟩] =
        .ok "SAJ stacktrace: (<procedure>) (f 2)" := by
      cbv
    have hhandle : ∃ s, afterFailure.handle 6 (.node failInArgument) =
        (.ok (.error message), s) := by
      show ∃ s, afterFailure.fresh.run 6 [failInArgument] = _
      unfold Session.run
      simp only [show (evalAll afterFailure.fresh.handler 6 [failInArgument]
        afterFailure.fresh.env).run.run afterFailure.fresh.machine = _ from hrun, Session.stopped,
        hstack]
      exact ⟨_, rfl⟩
    obtain ⟨s, hs⟩ := hhandle
    refine ⟨s, hs, ?_⟩
    rcases hsession afterFailure s 6 (.node failInArgument) message rfl hs with
      (⟨_, hparse, -⟩ | ⟨_, _, ⟨⟩, hdecode, -⟩) | hpending
    · cases hparse
    · cases hdecode
    · exact hpending

end TreeScript
