import Mathlib
import TreeScript.Proofs.CapturedScopes
import TreeScript.Proofs.Reachability
import TreeScript.Proofs.Requests

/-!
# Programs without effects do not depend on the host

Only an effect asks the host. That a program has none is not enough for its evaluation to leave the
host alone, since a call enters the body of a closure, and this body is not a part of the program.
But a closure can only be called if it is bound to a name: in the environment of the program, or in
the scope of another closure that can be called. These are the procedures that are `Callable` from
an environment. A closure in a list, say, is not among them, because no program takes an element out
of a list.

An environment is `Quiet` if no procedure that is callable from it has an effect. Every step of an
evaluation of a program without effects keeps quiet environments quiet, and hands on quiet values
only. So the scripts of the program with a host and without one take the same steps, none of which
asks (`Script.Alike`), and these steps do the same whatever the host is (`Script.Alike.run`). The
main statement is `effectFree_ignores_host`.
-/

namespace TreeScript

variable {σ τ α β : Type}

mutual

/-- Whether there is no effect in a program. -/
def Expr.effectFree : Expr → Bool
  | .arithmetic _ operands => effectFreeAll operands
  | .comparison _ operands => effectFreeAll operands
  | .conditional condition onTrue onFalse =>
    Expr.effectFree condition && Expr.effectFree onTrue && Expr.effectFree onFalse
  | .procedure _ body => Expr.effectFree body
  | .call callee arguments => Expr.effectFree callee && effectFreeAll arguments
  | .definition _ value => Expr.effectFree value
  | .effect .. => false
  | .block items => effectFreeAll items
  | _ => true
termination_by structural e => e

/-- Whether there is no effect in any program of a list. -/
def effectFreeAll : List Expr → Bool
  | [] => true
  | e :: rest => Expr.effectFree e && effectFreeAll rest
termination_by structural es => es

end

theorem effectFreeAll_iff {es : List Expr} :
    effectFreeAll es = true ↔ ∀ e ∈ es, e.effectFree = true := by
  induction es with
  | nil => simp [effectFreeAll]
  | cons e rest ih => simp [effectFreeAll, ih]

/-! ## Quiet values and environments -/

/-- A procedure with this body can be called by a program that has got a value: the value is the
closure itself, or a closure in whose scope a name leads to it. -/
inductive Callable (scopes : Array Environment) : Value → Expr → Prop
  | itself {ref : ScopeRef} {inputs : List String} {body : Expr} :
    Callable scopes (.closure ref inputs body) body
  | inScope {ref : ScopeRef} {inputs : List String} {body other : Expr} {key : String} {v : Value} :
    (scopes.getD ref .empty).find? (.str key) = some v → Callable scopes v other →
      Callable scopes (.closure ref inputs body) other

/-- No procedure that can be called through a value has an effect. -/
def Value.Quiet (scopes : Array Environment) (v : Value) : Prop :=
  ∀ body, Callable scopes v body → body.effectFree = true

/-- No procedure that can be called from an environment has an effect. -/
def Environment.Quiet (scopes : Array Environment) (env : Environment) : Prop :=
  ∀ key v, env.find? (.str key) = some v → v.Quiet scopes

/-- What is quiet with some scopes is so with others. -/
def StaysQuiet (scopes scopes' : Array Environment) : Prop :=
  ∀ v : Value, v.Quiet scopes → v.Quiet scopes'

namespace Value.Quiet

variable {scopes : Array Environment}

theorem of_not_closure {v : Value} (h : v.isClosure = false) : v.Quiet scopes := by
  rintro body (_ | _) <;> cases h

theorem closure_iff {ref : ScopeRef} {inputs : List String} {body : Expr} :
    (Value.closure ref inputs body).Quiet scopes ↔
      body.effectFree = true ∧ (scopes.getD ref .empty).Quiet scopes := by
  constructor
  · intro h
    exact ⟨h body .itself, fun key v hfind other hother => h other (.inScope hfind hother)⟩
  · rintro ⟨hbody, hscope⟩ other (_ | ⟨hfind, hother⟩)
    · exact hbody
    · exact hscope _ _ hfind other hother

end Value.Quiet

theorem Environment.Quiet.mono {scopes scopes' : Array Environment} {env : Environment}
    (h : env.Quiet scopes) (hstays : StaysQuiet scopes scopes') : env.Quiet scopes' :=
  fun key v hfind => hstays v (h key v hfind)

namespace StaysQuiet

variable {scopes scopes' scopes'' : Array Environment} {env : Environment}

theorem refl (scopes : Array Environment) : StaysQuiet scopes scopes := fun _ h => h

theorem trans (h : StaysQuiet scopes scopes') (h' : StaysQuiet scopes' scopes'') :
    StaysQuiet scopes scopes'' :=
  fun v hv => h' v (h v hv)

/-- Closures may be given quiet scopes. The induction follows the way to a callable procedure: where
it leads through a new scope, what it finds there was quiet before. -/
theorem of_scopes
    (h : ∀ ref, scopes'.getD ref .empty = scopes.getD ref .empty ∨
      (scopes'.getD ref .empty).Quiet scopes) : StaysQuiet scopes scopes' := by
  intro v hv body hcallable
  induction hcallable with
  | itself => exact hv _ .itself
  | @inScope ref inputs body other key w hfind _ ih =>
    apply ih
    rcases h ref with hsame | hnew
    · rw [hsame] at hfind
      exact (Value.Quiet.closure_iff.1 hv).2 key w hfind
    · exact hnew key w hfind

theorem push (henv : env.Quiet scopes) : StaysQuiet scopes (scopes.push env) := by
  refine of_scopes fun ref => ?_
  rw [getD_push]
  split
  · exact .inr henv
  · exact .inl rfl

theorem adopt (v : Value) (henv : env.Quiet scopes) :
    StaysQuiet scopes (adopted v env scopes) := by
  refine of_scopes fun ref => ?_
  rcases adopted_getD v env scopes ref with hsame | hnew
  · exact .inl hsame
  · rw [hnew]
    exact .inr henv

end StaysQuiet

/-! ## Scripts that do not ask

A script is compared with another one that takes the same steps. The scopes are those of the machine
on which the scripts are to run. -/

/-- What a step gets back on a machine with these scopes, unless it asks the host. -/
def Step.Gets (scopes : Array Environment) : (s : Step) → s.Reply → Prop
  | .close _, (ref : ScopeRef) => ref = scopes.size
  | .enter ref _, (scope : Environment) => scope = scopes.getD ref .empty
  | _, _ => True

namespace Script

/-- The scripts take the same steps, none of which asks the host, and end in the same way: they stop
for the same cause, or return the same, of which `Q` holds. What is quiet stays so at each step. -/
inductive Alike (Q : Array Environment → α → Prop) : Array Environment → Script α → Script α → Prop
  | done {scopes : Array Environment} {a : α} : Q scopes a → Alike Q scopes (.done a) (.done a)
  | stop {scopes : Array Environment} {cause : Cause} : Alike Q scopes (.stop cause) (.stop cause)
  | step {scopes : Array Environment} {s : Step} {next next' : s.Reply → Script α} :
    s.request? = none → StaysQuiet scopes (s.onScopes scopes) →
    (∀ r, s.Gets scopes r → Alike Q (s.onScopes scopes) (next r) (next' r)) →
      Alike Q scopes (.step s next) (.step s next')

namespace Alike

variable {Q : Array Environment → α → Prop} {R : Array Environment → β → Prop}
  {scopes : Array Environment}

theorem bind {x y : Script α} {f g : α → Script β} (h : Alike Q scopes x y)
    (hfg : ∀ scopes' a, StaysQuiet scopes scopes' → Q scopes' a → Alike R scopes' (f a) (g a)) :
    Alike R scopes (x >>= f) (y >>= g) := by
  show Alike R scopes (x.bind f) (y.bind g)
  induction h with
  | done ha => exact hfg _ _ (.refl _) ha
  | stop => exact .stop
  | step hask hstays _ ih =>
    refine .step hask hstays fun r hr => ih r hr fun scopes' a hlater ha => ?_
    exact hfg scopes' a (hstays.trans hlater) ha

theorem map {x y : Script α} {f : α → β} (h : Alike Q scopes x y)
    (hf : ∀ scopes' a, Q scopes' a → R scopes' (f a)) : Alike R scopes (f <$> x) (f <$> y) := by
  rw [map_eq_pure_bind, map_eq_pure_bind]
  exact h.bind fun scopes' a _ ha => .done (hf scopes' a ha)

/-- Values that were quiet stay so while the later ones are dealt with. -/
theorem mapM {f g : α → Script Value} {items : List α}
    (h : ∀ a ∈ items, ∀ scopes', StaysQuiet scopes scopes' →
      Alike (fun scopes v => v.Quiet scopes) scopes' (f a) (g a)) :
    Alike (fun scopes vs => ∀ v ∈ vs, v.Quiet scopes) scopes (items.mapM f) (items.mapM g) := by
  induction items generalizing scopes with
  | nil => exact .done fun _ hv => nomatch hv
  | cons a rest ih =>
    obtain ⟨ha, hrest⟩ := List.forall_mem_cons.1 h
    rw [List.mapM_cons, List.mapM_cons]
    refine (ha scopes (.refl scopes)).bind fun scopes₁ v h₁ hv => ?_
    refine (ih fun b hb scopes' hlater => hrest b hb scopes' (h₁.trans hlater)).bind
      fun scopes₂ vs h₂ hvs => ?_
    exact .done (List.forall_mem_cons.2 ⟨h₂ v hv, hvs⟩)

/-! ### The parts of an evaluation -/

/-- The value and the environment that an evaluation returns are quiet. -/
def Results (scopes : Array Environment) (r : Value × Environment) : Prop :=
  r.1.Quiet scopes ∧ r.2.Quiet scopes

/-- Programs without effects have alike scripts in quiet environments. -/
def Evaluators (ev ev' : Evaluator) : Prop :=
  ∀ e env scopes, e.effectFree = true → env.Quiet scopes →
    Alike Results scopes (ev e env) (ev' e env)

variable {ev ev' : Evaluator} {env : Environment}

theorem lookup (henv : env.Quiet scopes) (key : String) :
    Alike (fun scopes v => v.Quiet scopes) scopes (lookup env key) (lookup env key) := by
  unfold Script.lookup
  cases hv : env.lookup key with
  | ok v => exact .done (Environment.Binds.lookup henv hv)
  | error failure => exact .stop

theorem combine (op : ArithmeticOp) {operands : List Value} (h : ∀ v ∈ operands, v.Quiet scopes) :
    Alike (fun scopes v => v.Quiet scopes) scopes (combine op operands) (combine op operands) := by
  unfold Script.combine
  cases hv : op.fold operands with
  | error failure => exact .stop
  | ok v =>
    have hne : operands ≠ [] := by
      rintro rfl
      cases hv
    have hfold := op.fold_ofOperator (fun _ _ _ _ _ hmade => .of_not_closure hmade.1) h hne
    rw [hv] at hfold
    exact .done hfold

theorem compare (op : ComparisonOp) (operands : List Value) :
    Alike (fun scopes v => v.Quiet scopes) scopes (compare op operands) (compare op operands) := by
  unfold Script.compare
  cases op.chain operands with
  | error failure => exact .stop
  | ok b => exact .done (.of_not_closure rfl)

theorem values (hev : Evaluators ev ev') (henv : env.Quiet scopes) {operands : List Expr}
    (h : effectFreeAll operands = true) :
    Alike (fun scopes vs => ∀ v ∈ vs, v.Quiet scopes) scopes (values ev env operands)
      (values ev' env operands) := by
  refine mapM fun operand hoperand scopes' hlater => ?_
  have hfree : operand.effectFree = true := effectFreeAll_iff.1 h operand hoperand
  exact (hev operand env scopes' hfree (henv.mono hlater)).map fun _ _ hr => hr.1

theorem target (hev : Evaluators ev ev') (henv : env.Quiet scopes) {callee : Expr}
    (h : callee.effectFree = true) :
    Alike (fun scopes v => v.Quiet scopes) scopes (target ev env callee)
      (target ev' env callee) := by
  cases callee with
  | «variable» key => exact lookup henv key
  | _ => exact (hev _ env scopes h henv).map fun _ _ hr => hr.1

/-- A call enters the body of a closure that it has got hold of, in the scope of this closure. -/
theorem call (hev : Evaluators ev ev') (henv : env.Quiet scopes) (callee : Expr)
    {arguments : List Expr} (h : effectFreeAll arguments = true) {target : Value}
    (htarget : target.Quiet scopes) :
    Alike Results scopes (call ev env callee arguments target)
      (call ev' env callee arguments target) := by
  cases target with
  | closure ref inputs body =>
    refine (values hev henv h).bind fun scopes₁ args h₁ hargs => ?_
    obtain ⟨hbody, hscope⟩ := Value.Quiet.closure_iff.1 (h₁ _ htarget)
    refine .step rfl (.refl scopes₁) fun scope hget => ?_
    obtain rfl : scope = scopes₁.getD ref .empty := hget
    have hinputs := Environment.Binds.bindInputs hscope hargs (.of_not_closure rfl) inputs
    refine (hev body _ scopes₁ hbody hinputs).bind fun scopes₂ r h₂ hr => ?_
    exact .step rfl (.refl scopes₂) fun _ _ => .done ⟨hr.1, henv.mono (h₁.trans h₂)⟩
  | _ => exact .stop

end Alike

end Script

/-- The scripts of a program without effects are alike, be there a host or not. The induction is on
the fuel, because a call goes on with a body that is no part of the program. -/
theorem evaluation_alike (hosted hosted' : Bool) (fuel : Nat) :
    Script.Alike.Evaluators (evaluation hosted fuel) (evaluation hosted' fuel) := by
  induction fuel with
  | zero => exact fun _ _ _ _ _ => .stop
  | succ fuel ih =>
    intro e env scopes he henv
    cases e with
    | number n => exact .done ⟨.of_not_closure (by cases n <;> rfl), henv⟩
    | string s => exact .done ⟨.of_not_closure rfl, henv⟩
    | boolean b => exact .done ⟨.of_not_closure rfl, henv⟩
    | «variable» key =>
      exact (Script.Alike.lookup henv key).bind fun _ v hlater hv => .done ⟨hv, henv.mono hlater⟩
    | definition key value =>
      rw [Expr.effectFree] at he
      refine (ih value env scopes he henv).bind fun scopes₁ r h₁ hr => ?_
      have hextended : (env.extend key r.1).Quiet scopes₁ :=
        Environment.Binds.extend (henv.mono h₁) key hr.1
      have hadopt := StaysQuiet.adopt r.1 hextended
      exact .step rfl hadopt fun _ _ => .done ⟨.of_not_closure rfl, hextended.mono hadopt⟩
    | procedure inputs body =>
      rw [Expr.effectFree] at he
      have hpush := StaysQuiet.push henv
      refine .step rfl hpush fun ref hget =>
        .done ⟨Value.Quiet.closure_iff.2 ⟨he, ?_⟩, henv.mono hpush⟩
      obtain rfl : ref = scopes.size := hget
      show Environment.Quiet _ ((scopes.push env).getD scopes.size .empty)
      rw [getD_push, if_pos rfl]
      exact henv.mono hpush
    | arithmetic op operands =>
      rw [Expr.effectFree] at he
      refine (Script.Alike.values ih henv he).bind fun scopes₁ values h₁ hvalues => ?_
      exact (Script.Alike.combine op hvalues).bind fun _ v h₂ hv =>
        .done ⟨hv, henv.mono (h₁.trans h₂)⟩
    | comparison op operands =>
      rw [Expr.effectFree] at he
      refine (Script.Alike.values ih henv he).bind fun scopes₁ values h₁ _ => ?_
      exact (Script.Alike.compare op values).bind fun _ v h₂ hv =>
        .done ⟨hv, henv.mono (h₁.trans h₂)⟩
    | conditional condition onTrue onFalse =>
      rw [Expr.effectFree, Bool.and_eq_true, Bool.and_eq_true] at he
      refine (ih condition env scopes he.1.1 henv).bind fun scopes₁ r h₁ _ => ?_
      refine .step rfl (.refl scopes₁) fun _ _ => ih _ env scopes₁ ?_ (henv.mono h₁)
      split
      · exact he.1.2
      · exact he.2
    | call callee arguments =>
      rw [Expr.effectFree, Bool.and_eq_true] at he
      refine (Script.Alike.target ih henv he.1).bind fun scopes₁ v h₁ hv => ?_
      exact Script.Alike.call ih (henv.mono h₁) callee he.2 hv
    -- `effectFree` excludes effects
    | effect name args bind next => cases he
    | block items => exact .stop

/-! ## Runs with different hosts -/

/-- The machine with another host. -/
def Machine.withHost (m : Machine σ) (host : τ) : Machine τ :=
  { scopes := m.scopes
    calls := m.calls
    log := m.log
    tracing := m.tracing
    trace := m.trace
    host := host }

theorem Run.tell_run (line : String) (m : Machine σ) :
    (Run.tell line : Run σ Unit).run.run m =
      (.ok (), { m with
        trace := if m.tracing then m.trace ++ "[DBG] " ++ line ++ "\n" else m.trace }) := by
  show ((.ok (), if m.tracing then { m with trace := m.trace ++ "[DBG] " ++ line ++ "\n" } else m) :
    Except Stop Unit × Machine σ) = _
  split <;> rfl

/-- A step that does not ask does the same whatever the host is, and leaves the host and the log as
they are. -/
theorem Step.run_withHost {s : Step} (hask : s.request? = none) (handler : Option (Handler σ))
    (handler' : Option (Handler τ)) (m : Machine σ) (host : τ) :
    ∃ r m', (s.run handler).run.run m = (.ok r, m') ∧
      (s.run handler').run.run (m.withHost host) = (.ok r, m'.withHost host) ∧
      s.Gets m.scopes r ∧ m'.scopes = s.onScopes m.scopes ∧ m'.host = m.host ∧
      m'.log = m.log := by
  cases s with
  | close env => exact ⟨_, _, rfl, rfl, rfl, rfl, rfl, rfl⟩
  | define key value env =>
    have hrun : ∀ {ρ : Type} (handler : Option (Handler ρ)) (m : Machine ρ),
        ((define key value env).run handler).run.run m =
          (Run.tell s!"DEFINE {key} {value.kindName}" : Run ρ Unit).run.run
            { m with scopes := adopted value env m.scopes } := by
      intro ρ handler m
      cases value <;> rfl
    rw [hrun, hrun, Run.tell_run, Run.tell_run]
    exact ⟨_, _, rfl, rfl, trivial, rfl, rfl, rfl⟩
  | branch taken e =>
    exact ⟨(), _, Run.tell_run _ m, Run.tell_run _ (m.withHost host), trivial, rfl, rfl, rfl⟩
  | enter ref frame => exact ⟨_, _, rfl, rfl, rfl, rfl, rfl, rfl⟩
  | leave => exact ⟨_, _, rfl, rfl, trivial, rfl, rfl, rfl⟩
  | perform name args => cases hask

/-- Alike scripts run alike on machines that differ in their hosts only, and ask neither host. -/
theorem Script.Alike.run {Q : Array Environment → α → Prop} {scopes : Array Environment}
    {x y : Script α} (h : Alike Q scopes x y) (handler : Option (Handler σ))
    (handler' : Option (Handler τ)) {m : Machine σ} (hm : m.scopes = scopes) (host : τ) :
    (y.run handler').run.run (m.withHost host) =
      Prod.map id (·.withHost host) ((x.run handler).run.run m) ∧
    ((x.run handler).run.run m).2.host = m.host ∧ x.asked handler m = [] := by
  induction h generalizing m with
  | done => exact ⟨rfl, rfl, rfl⟩
  | stop => exact ⟨rfl, rfl, rfl⟩
  | @step scopes s next next' hask _ _ ih =>
    obtain ⟨r, m', hrun, hrun', hget, hscopes, hhost, -⟩ :=
      Step.run_withHost hask handler handler' m host
    rw [hm] at hget hscopes
    obtain ⟨hsame, hkept, hnone⟩ := ih r hget hscopes
    rw [run_step_of_ok hrun, run_step_of_ok hrun', asked, hask, hrun]
    exact ⟨hsame, hkept.trans hhost, hnone⟩

/-- Let a program have no effect, and let none of the procedures have one that can be called from
its environment. Then its evaluation does not depend on how effects are answered, if they are at
all: with any fuel the evaluations with two hosts both run out of it, or fail in the same way, or
return the same value and the same environment, and leave machines behind that differ in their hosts
only. The host is as it was before, and has not been asked. -/
theorem effectFree_ignores_host {e : Expr} {env : Environment} {m : Machine σ}
    (he : e.effectFree = true) (henv : env.Quiet m.scopes) (fuel : Nat)
    (handler : Option (Handler σ)) (handler' : Option (Handler τ)) (host : τ) :
    (eval handler' fuel e env).run.run (m.withHost host) =
      Prod.map id (·.withHost host) ((eval handler fuel e env).run.run m) ∧
    ((eval handler fuel e env).run.run m).2.host = m.host ∧
    (evaluation handler.isSome fuel e env).asked handler m = [] := by
  have halike := evaluation_alike handler.isSome handler'.isSome fuel e env m.scopes he henv
  have hrun := halike.run handler handler' rfl host
  rw [evaluation_run, evaluation_run] at hrun
  exact hrun

/-- A host that counts how often it is asked. -/
def asking : Handler Nat := fun _ _ n => ⟨.ok .null, [], n + 1⟩

/-- A procedure `f` that calls `g` of its own scope, and a list with a procedure that asks the
host. -/
def withInner : Environment :=
  ⟨[(.str "f", .closure 0 ["x"] (.call (.variable "g") [.variable "x", .variable "x"])),
    (.str "kept", .list [.closure 1 [] (.effect "ask" [] none none)])]⟩

/-- Binds `g` to a procedure that adds. -/
def withAdder : Environment :=
  ⟨[(.str "g", .closure 1 ["x", "y"] (.arithmetic .add [.variable "x", .variable "y"]))]⟩

/-- The procedure in the list would ask, but nothing can call it. With a host and without one the
call of `f` gives the same, and so does a call that fails. -/
theorem effectFree_ignores_host_inner :
    let m : Machine Nat := ⟨#[withAdder, .empty], [], [], false, "", 7⟩
    let double : Expr := .definition "d" (.call (.variable "f") [.number (.int 2)])
    let fail : Expr := .call (.variable "f") []
    double.effectFree = true ∧ fail.effectFree = true ∧ withInner.Quiet m.scopes ∧
    ((eval (some asking) 5 double withInner).run.run m).1 =
      .ok (.null, withInner.extend "d" (.int 4)) ∧
    ((eval (some asking) 5 fail withInner).run.run m).1 =
      .error (.failure (.undefinedVariable "x")) ∧
    (eval (none : Option (Handler Unit)) 5 double withInner).run.run (m.withHost ()) =
      Prod.map id (·.withHost ()) ((eval (some asking) 5 double withInner).run.run m) ∧
    (eval (none : Option (Handler Unit)) 5 fail withInner).run.run (m.withHost ()) =
      Prod.map id (·.withHost ()) ((eval (some asking) 5 fail withInner).run.run m) ∧
    (evaluation true 5 double withInner).asked (some asking) m = [] := by
  intro m double fail
  have hdouble : double.effectFree = true := by decide
  have hfail : fail.effectFree = true := by decide
  have hadder : withAdder.Quiet m.scopes := by
    intro key v hfind
    obtain ⟨k, hmem⟩ := Bindings.mem_of_get? hfind
    cases List.mem_singleton.1 hmem
    exact Value.Quiet.closure_iff.2 ⟨by decide, fun _ _ hempty => nomatch hempty⟩
  have hinner : withInner.Quiet m.scopes := by
    intro key v hfind
    obtain ⟨k, hmem⟩ := Bindings.mem_of_get? hfind
    rcases List.mem_cons.1 hmem with hf | hrest
    · cases hf
      exact Value.Quiet.closure_iff.2 ⟨by decide, hadder⟩
    · cases List.mem_singleton.1 hrest
      exact .of_not_closure rfl
  obtain ⟨hsame, -, hasked⟩ := effectFree_ignores_host hdouble hinner 5 (some asking) none ()
  have hsame' := (effectFree_ignores_host hfail hinner 5 (some asking) none ()).1
  exact ⟨hdouble, hfail, hinner, by cbv, by cbv, hsame, hsame', hasked⟩

end TreeScript
