import Mathlib
import TreeScript.Proofs.Reachability

/-!
# What can go wrong in an evaluation

A program is `evaluable` if its form allows to evaluate it: every part is a single program, an
operation has at least two operands, and what is called is a name or a procedure. A value is `Safe`
on a machine if the body of every closure that can be reached from it is evaluable, be it through
the data that the value holds or through the scopes of closures.

The main statement `eval_safe` is that an evaluable program, evaluated in a safe environment with a
host that gives safe answers, returns a safe value and a safe environment, or stops for a cause that
is to be expected. That a part is no program, that operands are missing, or that a procedure in
place is no closure are not among the causes.

The argument is about scripts. `Script.Secure` says that a script can cope with all replies to its
steps that are safe; it is kept by sequencing and holds of every part of an evaluation. A step on a
machine gives such a reply, and leaves all values safe that were so before it (`Machine.Spares`).
-/

namespace TreeScript

mutual

/-- Whether the form of a program allows to evaluate it. -/
def Expr.evaluable : Expr → Bool
  | .arithmetic _ operands => 2 ≤ operands.length && evaluableAll operands
  | .comparison _ operands => 2 ≤ operands.length && evaluableAll operands
  | .conditional condition onTrue onFalse =>
    Expr.evaluable condition && Expr.evaluable onTrue && Expr.evaluable onFalse
  | .procedure _ body => Expr.evaluable body
  | .call callee arguments =>
    (checkCallee callee).isOk && Expr.evaluable callee && evaluableAll arguments
  | .definition _ value => Expr.evaluable value
  | .effect _ args _ next => evaluableArgs args && evaluableNext next
  | .block _ => false
  | _ => true
termination_by structural e => e

/-- Whether all programs of a list are evaluable. -/
def evaluableAll : List Expr → Bool
  | [] => true
  | e :: rest => Expr.evaluable e && evaluableAll rest
termination_by structural es => es

/-- Whether the arguments of an effect that are expressions are evaluable. -/
def evaluableArgs : List (Value × Arg) → Bool
  | [] => true
  | (_, a) :: rest => Arg.evaluable a && evaluableArgs rest
termination_by structural as => as

/-- Whether an argument is a literal or an evaluable expression. -/
def Arg.evaluable : Arg → Bool
  | .literal _ => true
  | .expr e => Expr.evaluable e
termination_by structural a => a

/-- Whether what an effect goes on with is evaluable. -/
def evaluableNext : Option Expr → Bool
  | none => true
  | some e => Expr.evaluable e
termination_by structural e => e

end

theorem evaluableAll_iff {es : List Expr} :
    evaluableAll es = true ↔ ∀ e ∈ es, e.evaluable = true := by
  induction es with
  | nil => simp [evaluableAll]
  | cons e rest ih => simp [evaluableAll, ih]

theorem evaluableArgs_iff {args : List (Value × Arg)} :
    evaluableArgs args = true ↔ ∀ entry ∈ args, entry.2.evaluable = true := by
  induction args with
  | nil => simp [evaluableArgs]
  | cons entry rest ih => simp [evaluableArgs, ih]

variable {σ α β : Type}

/-! ## Safe values -/

namespace Machine

/-- All closures that can be reached from a value have evaluable bodies. -/
def Safe (m : Machine σ) (v : Value) : Prop :=
  ∀ ref inputs body, m.Reaches v (.closure ref inputs body) → body.evaluable = true

/-- What is safe on a machine is safe on another. -/
def Spares (m m' : Machine σ) : Prop := ∀ v, m.Safe v → m'.Safe v

variable {m m' m'' : Machine σ} {env : Environment} {v : Value}

namespace Safe

theorem of_parts (hv : v.isClosure = false) (h : ∀ w ∈ v.parts, m.Safe w) : m.Safe v :=
  Bears.of_parts hv h

theorem leaf (hv : v.isClosure = false) (h : v.parts = []) : m.Safe v := Bears.leaf hv h

theorem closure {ref : ScopeRef} (hscope : m.Safe (m.scope ref).toValue) (inputs : List String)
    {body : Expr} (hbody : body.evaluable = true) : m.Safe (.closure ref inputs body) :=
  Bears.closure hscope hbody

theorem environment_iff :
    m.Safe env.toValue ↔ ∀ entry ∈ env.bindings, m.Safe entry.1 ∧ m.Safe entry.2 :=
  Bears.environment_iff

theorem str (s : String) : m.Safe (.str s) := Bears.str s

end Safe

theorem Spares.refl (m : Machine σ) : m.Spares m := fun _ h => h

theorem Spares.trans (h : m.Spares m') (h' : m'.Spares m'') : m.Spares m'' :=
  fun v hv => h' v (h v hv)

end Machine

/-! ## Secure scripts -/

variable (handler : Option (Handler σ))

/-- What a step hands to the machine is safe. -/
def Step.Sound (m : Machine σ) : Step → Prop
  | .close env => m.Safe env.toValue
  | .define _ _ env => m.Safe env.toValue
  | .enter ref _ => m.Safe (m.scope ref).toValue
  | .perform .. => handler.isSome = true
  | _ => True

/-- What a step gets back is safe. -/
def Step.Allows (m : Machine σ) : (s : Step) → s.Reply → Prop
  | .close _, (ref : ScopeRef) => m.Safe (m.scope ref).toValue
  | .enter .., (scope : Environment) => m.Safe scope.toValue
  | .perform .., (v : Value) => m.Safe v
  | _, _ => True

/-- A cause for which an evaluable program may stop. -/
def Cause.Expected : Cause → Prop
  | .outOfFuel => True
  | .unbound _ => True
  | .notCallable callee target => (∃ key, callee = .variable key) ∧ target.isClosure = false
  | .hostless _ => handler = none
  | .arithmetic op operands failure =>
    2 ≤ operands.length ∧ op.fold operands = .error failure ∧ failure.isOfOperator = true
  | .comparison op operands failure =>
    2 ≤ operands.length ∧ op.chain operands = .error failure ∧ failure.isOfOperator = true
  | .notEvaluable _ => False
  | .refused name args failure =>
    ∃ answer host, handler = some answer ∧ (answer name args host).outcome = .error failure

/-- A script that takes sound steps from a machine and copes with safe replies, whatever else has
become safe meanwhile: it stops for expected causes only, and ends with what satisfies `Q`. -/
def Script.Secure (Q : Machine σ → α → Prop) : Script α → Machine σ → Prop
  | .done a, m => Q m a
  | .stop cause, _ => cause.Expected handler
  | .step s next, m =>
    s.Sound handler m ∧ ∀ m', m.Spares m' → ∀ r, s.Allows m' r → (next r).Secure Q m'

variable {handler}

namespace Script.Secure

variable {Q : Machine σ → α → Prop} {R : Machine σ → β → Prop} {m : Machine σ}

theorem bind {x : Script α} {f : α → Script β} (hx : x.Secure handler Q m)
    (hf : ∀ m' a, m.Spares m' → Q m' a → (f a).Secure handler R m') :
    (x >>= f).Secure handler R m := by
  show (x.bind f).Secure handler R m
  induction x generalizing m with
  | done a => exact hf m a (.refl m) hx
  | stop cause => exact hx
  | step s next ih =>
    refine ⟨hx.1, fun m' hm' r hr => ih r (hx.2 m' hm' r hr) fun m'' a hm'' ha => ?_⟩
    exact hf m'' a (hm'.trans hm'') ha

theorem map {x : Script α} {f : α → β} (hx : x.Secure handler Q m)
    (hf : ∀ m' a, m.Spares m' → Q m' a → R m' (f a)) : (f <$> x).Secure handler R m := by
  rw [map_eq_pure_bind]
  exact hx.bind hf

/-- What was safe for an earlier item stays so while the later ones are dealt with. -/
theorem mapM {f : α → Script β} {items : List α}
    (hmono : ∀ m m' b, m.Spares m' → R m b → R m' b)
    (hf : ∀ a ∈ items, ∀ m', m.Spares m' → (f a).Secure handler R m') :
    (items.mapM f).Secure handler
      (fun m bs => bs.length = items.length ∧ ∀ b ∈ bs, R m b) m := by
  induction items generalizing m with
  | nil => exact ⟨rfl, fun _ h => nomatch h⟩
  | cons a rest ih =>
    obtain ⟨ha, hrest⟩ := List.forall_mem_cons.1 hf
    rw [List.mapM_cons]
    refine (ha m (.refl m)).bind fun m' b hm' hb => ?_
    refine (ih fun a ha m'' hm'' => hrest a ha m'' (hm'.trans hm'')).bind fun m'' bs hm'' hbs => ?_
    refine ⟨congrArg (· + 1) hbs.1, List.forall_mem_cons.2 ⟨?_, hbs.2⟩⟩
    exact hmono m' m'' b hm'' hb

end Script.Secure

/-! ## The script of an evaluable program -/

/-- The value and the environment that an evaluation returns are safe. -/
def Machine.SafeResult (m : Machine σ) (r : Value × Environment) : Prop :=
  m.Safe r.1 ∧ m.Safe r.2.toValue

namespace Script.Secure

variable {ev : Evaluator} {env : Environment} {m : Machine σ}

theorem lookup (henv : m.Safe env.toValue) (key : String) :
    (lookup env key).Secure handler Machine.Safe m := by
  unfold Script.lookup
  cases hv : env.lookup key with
  | ok v => exact Machine.Bears.lookup henv hv
  | error failure => exact trivial

theorem combine (op : ArithmeticOp) {operands : List Value} (hlen : 2 ≤ operands.length)
    (hoperands : ∀ v ∈ operands, m.Safe v) :
    (combine op operands).Secure handler Machine.Safe m := by
  have hne : operands ≠ [] := by
    rintro rfl
    exact absurd hlen (by decide)
  have hfold := op.fold_ofOperator (P := m.Safe) (fun _ _ _ => Machine.Bears.madeOf) hoperands hne
  unfold Script.combine
  cases hv : op.fold operands with
  | ok v =>
    rw [hv] at hfold
    exact hfold
  | error failure =>
    rw [hv] at hfold
    exact ⟨hlen, hv, hfold⟩

theorem compare (op : ComparisonOp) {operands : List Value} (hlen : 2 ≤ operands.length) :
    (compare op operands).Secure handler Machine.Safe m := by
  have hchain := op.chain_ofOperator operands
  unfold Script.compare
  cases hv : op.chain operands with
  | ok b => exact .leaf rfl rfl
  | error failure =>
    rw [hv] at hchain
    exact ⟨hlen, hv, hchain⟩

/-- What is called is a closure if it stands in place. -/
theorem target {fuel : Nat}
    (hev : ∀ e env m, e.evaluable = true → m.Safe env.toValue →
      (evaluation handler.isSome fuel e env).Secure handler Machine.SafeResult m)
    (henv : m.Safe env.toValue) {callee : Expr} (hcallee : (checkCallee callee).isOk = true)
    (h : callee.evaluable = true) :
    (target (evaluation handler.isSome fuel) env callee).Secure handler
      (fun m v => m.Safe v ∧ (v.isClosure = false → ∃ key, callee = .variable key)) m := by
  cases callee with
  | «variable» key =>
    rw [← bind_pure (Script.target _ _ _)]
    exact (lookup henv key).bind fun _ _ _ hv => ⟨hv, fun _ => ⟨key, rfl⟩⟩
  | procedure inputs body =>
    cases fuel with
    | zero => exact trivial
    | succ fuel =>
      refine ⟨henv, fun m' _ ref href => ?_⟩
      exact ⟨Machine.Safe.closure href inputs (by rwa [Expr.evaluable] at h), fun h => nomatch h⟩
  | _ => cases hcallee

variable (hev : ∀ e env m, e.evaluable = true → m.Safe env.toValue →
  (ev e env).Secure handler Machine.SafeResult m)

include hev

theorem values (henv : m.Safe env.toValue) {operands : List Expr}
    (h : evaluableAll operands = true) :
    (values ev env operands).Secure handler
      (fun m vs => vs.length = operands.length ∧ ∀ v ∈ vs, m.Safe v) m := by
  refine mapM (fun _ _ v hm hv => hm v hv) fun operand hoperand m' hm' => ?_
  exact (hev operand env m' (evaluableAll_iff.1 h operand hoperand) (hm' _ henv)).map
    fun _ _ _ hr => hr.1

theorem call (henv : m.Safe env.toValue) {callee : Expr} {arguments : List Expr}
    (harguments : evaluableAll arguments = true) {target : Value} (htarget : m.Safe target)
    (hcallee : target.isClosure = false → ∃ key, callee = .variable key) :
    (call ev env callee arguments target).Secure handler Machine.SafeResult m := by
  cases target with
  | closure ref inputs body =>
    refine (values hev henv harguments).bind fun m₁ args hm₁ hargs => ?_
    have htarget₁ := hm₁ _ htarget
    refine ⟨Machine.Bears.scope htarget₁, fun m₂ hm₂ scope hscope => ?_⟩
    have hinputs : m₂.Safe (scope.extendMany (bindInputs inputs args)).toValue :=
      Machine.Bears.extendMany hscope (.bindInputs (fun v hv => hm₂ v (hargs.2 v hv)) inputs)
    refine (hev body _ m₂ (Machine.Bears.procedure htarget) hinputs).bind fun m₃ r hm₃ hr => ?_
    exact ⟨trivial, fun m₄ hm₄ _ _ => ⟨hm₄ _ hr.1, hm₄ _ (hm₃ _ (hm₂ _ (hm₁ _ henv)))⟩⟩
  | _ => exact ⟨hcallee rfl, rfl⟩

theorem effect (hhosted : handler.isSome = true) (henv : m.Safe env.toValue) (name : String)
    {args : List (Value × Arg)} (hargs : evaluableArgs args = true) (bind : Option String)
    {continuation : Option Expr} (hnext : evaluableNext continuation = true) :
    (effect ev env name args bind continuation).Secure handler Machine.SafeResult m := by
  have hargument : ∀ entry ∈ args, ∀ m', m.Spares m' →
      (argument ev env entry).Secure handler (fun _ _ => True) m' := by
    rintro ⟨key, arg⟩ hentry m' hm'
    have harg := evaluableArgs_iff.1 hargs _ hentry
    cases arg with
    | literal v => exact trivial
    | expr e =>
      rw [Arg.evaluable] at harg
      exact (hev e env m' harg (hm' _ henv)).bind fun _ _ _ _ => trivial
  refine (mapM (fun _ _ _ _ _ => trivial) hargument).bind fun m₁ values hm₁ _ => ?_
  refine ⟨hhosted, fun m₂ hm₂ v hv => ?_⟩
  have hafter : m₂.Safe (env.bindAnswer bind v).toValue :=
    Machine.Bears.bindAnswer (hm₂ _ (hm₁ _ henv)) bind hv
  cases continuation with
  | none => exact ⟨hv, hafter⟩
  | some e =>
    rw [evaluableNext] at hnext
    exact hev e _ m₂ hnext hafter

end Script.Secure

/-- The script of an evaluable program in a safe environment is secure. -/
theorem evaluation_secure (fuel : Nat) (e : Expr) (env : Environment) (m : Machine σ)
    (he : e.evaluable = true) (henv : m.Safe env.toValue) :
    (evaluation handler.isSome fuel e env).Secure handler Machine.SafeResult m := by
  -- on the fuel; what is safe in one machine is safe in every later one (`Spares`)
  induction fuel generalizing e env m with
  | zero => exact trivial
  | succ fuel ih =>
    have hreturn : ∀ {m m' : Machine σ} {env : Environment} {v : Value}, m.Safe env.toValue →
        m.Spares m' → m'.Safe v → m'.SafeResult (v, env) :=
      fun henv hm hv => ⟨hv, hm _ henv⟩
    cases e with
    | number n => exact ⟨.leaf (by cases n <;> rfl) (by cases n <;> rfl), henv⟩
    | string s => exact ⟨.str s, henv⟩
    | boolean b => exact ⟨.leaf rfl rfl, henv⟩
    | «variable» key =>
      exact (Script.Secure.lookup henv key).bind fun _ _ hm hv => hreturn henv hm hv
    | definition key value =>
      rw [Expr.evaluable] at he
      refine (ih value env m he henv).bind fun m₁ r hm₁ hr => ?_
      have hextended : m₁.Safe (env.extend key r.1).toValue :=
        Machine.Bears.extend (hm₁ _ henv) key hr.1
      exact ⟨hextended, fun m₂ hm₂ _ _ => ⟨.leaf rfl rfl, hm₂ _ hextended⟩⟩
    | procedure inputs body =>
      rw [Expr.evaluable] at he
      exact ⟨henv, fun m' hm' ref href => hreturn henv hm' (.closure href inputs he)⟩
    | arithmetic op operands =>
      rw [Expr.evaluable, Bool.and_eq_true, decide_eq_true_eq] at he
      refine (Script.Secure.values ih henv he.2).bind fun m₁ values hm₁ hvalues => ?_
      exact (Script.Secure.combine op (hvalues.1 ▸ he.1) hvalues.2).bind fun _ _ hm₂ hv =>
        hreturn henv (hm₁.trans hm₂) hv
    | comparison op operands =>
      rw [Expr.evaluable, Bool.and_eq_true, decide_eq_true_eq] at he
      refine (Script.Secure.values ih henv he.2).bind fun m₁ values hm₁ hvalues => ?_
      exact (Script.Secure.compare op (hvalues.1 ▸ he.1)).bind fun _ _ hm₂ hv =>
        hreturn henv (hm₁.trans hm₂) hv
    | conditional condition onTrue onFalse =>
      rw [Expr.evaluable, Bool.and_eq_true, Bool.and_eq_true] at he
      refine (ih condition env m he.1.1 henv).bind fun m₁ r hm₁ _ => ⟨trivial, fun m₂ hm₂ _ _ => ?_⟩
      refine ih _ env m₂ ?_ (hm₂ _ (hm₁ _ henv))
      split
      · exact he.1.2
      · exact he.2
    | call callee arguments =>
      rw [Expr.evaluable, Bool.and_eq_true, Bool.and_eq_true] at he
      refine (Script.Secure.target ih henv he.1.1 he.1.2).bind fun m₁ v hm₁ hv => ?_
      exact Script.Secure.call ih (hm₁ _ henv) he.2 hv.1 hv.2
    | effect name args bind next =>
      rw [Expr.evaluable, Bool.and_eq_true] at he
      cases hhosted : handler.isSome with
      | false => exact Option.isNone_iff_eq_none.1 (by simpa using hhosted)
      | true =>
        rw [hhosted] at ih
        exact Script.Secure.effect ih hhosted henv name he.1 bind he.2
    | block items => cases he

/-! ## Secure runs -/

namespace Step

variable {s : Step} {r : s.Reply} {m m' : Machine σ}

/-- A sound step spares what is safe. -/
theorem spares (hs : s.Sound handler m) (h : (s.run handler).run.run m = (.ok r, m')) :
    m.Spares m' := by
  have hscopes := scopes_eq h
  cases s with
  | close env => exact Machine.Maintains.push hs hscopes
  | define key value env => exact Machine.Maintains.adopt value hs hscopes
  | _ => exact Machine.Maintains.of_scopes_eq hscopes

/-- A sound step has a safe reply, if the answers of the host are safe. -/
theorem allows (hs : s.Sound handler m) (h : (s.run handler).run.run m = (.ok r, m'))
    (hanswer : ∀ name args answer v, s = .perform name args → handler = some answer →
      (answer name args m.host).outcome = .ok v → m.Safe v) : s.Allows m' r := by
  have hm := spares hs h
  cases s with
  | close env =>
    cases h
    refine hm _ ?_
    show m.Safe ((m.scopes.push env).getD m.scopes.size .empty).toValue
    rw [getD_push, if_pos rfl]
    exact hs
  | enter ref frame =>
    cases h
    exact hm _ hs
  | perform name args =>
    obtain ⟨-, -, answer, hhandler, houtcome⟩ := Run.ask_eq_ok h
    exact hm _ (hanswer name args answer r rfl hhandler houtcome)
  | _ => exact trivial

end Step

variable (handler) in
/-- Whatever the host answers in the course of a run is safe at this point. -/
def AnswersSafely (c : RunState σ α) : Prop :=
  ∀ steps name args next m answer v, Course handler c steps ⟨.step (.perform name args) next, m⟩ →
    handler = some answer → (answer name args m.host).outcome = .ok v → m.Safe v

/-- A secure script stays secure along every run in which the host answers safely. -/
theorem Course.secure {Q : Machine σ → α → Prop} {c c' : RunState σ α} {steps : List Step}
    (h : Course handler c steps c') (hanswers : AnswersSafely handler c)
    (hc : c.script.Secure handler Q c.machine) : c'.script.Secure handler Q c'.machine := by
  induction h with
  | refl => exact hc
  | @step s next r m m' steps c hs _ ih =>
    refine ih ?_ (hc.2 m' (Step.spares hc.1 hs) r (Step.allows hc.1 hs ?_))
    · intro steps name args next' m'' answer v hcourse
      exact hanswers (s :: steps) name args next' m'' answer v (.step hs hcourse)
    · rintro name args answer v rfl
      exact hanswers [] name args next m answer v (.refl _)
  | @refuse name args next failure m m' hs =>
    obtain ⟨-, -, _, ⟨⟩, houtcome⟩ := Run.ask_eq_error hs
    obtain ⟨answer, hanswer⟩ := Option.isSome_iff_exists.1 hc.1
    exact ⟨answer, m.host, hanswer, houtcome answer hanswer⟩

/-- The evaluation of an evaluable program in a safe environment, with a host that answers safely,
returns a safe value and a safe environment, or it stops for an expected cause: the bound on the
recursion, a name without a value, a named callee that is no closure, a missing host, an operator
that fails on the values of two or more operands, or a failure of the host. -/
theorem eval_safe {fuel : Nat} {e : Expr} {env : Environment} {m₀ : Machine σ}
    (he : e.evaluable = true) (henv : m₀.Safe env.toValue)
    (hanswers : AnswersSafely handler ⟨evaluation handler.isSome fuel e env, m₀⟩) :
    match (eval handler fuel e env).run.run m₀ with
    | (.ok (v, after), m) => m.Safe v ∧ m.Safe after.toValue
    | (.error stop, m) => ∃ steps cause,
        Course handler ⟨evaluation handler.isSome fuel e env, m₀⟩ steps ⟨.stop cause, m⟩ ∧
          cause.stop = stop ∧ cause.Expected handler := by
  rw [← evaluation_run]
  obtain ⟨steps, last, hcourse, hlast⟩ :=
    Script.exists_course (evaluation handler.isSome fuel e env) m₀
  have hsecure := hcourse.secure hanswers (evaluation_secure fuel e env m₀ he henv)
  generalize ((evaluation handler.isSome fuel e env).run handler).run.run m₀ = ending
    at hcourse hlast hsecure ⊢
  obtain ⟨outcome, m⟩ := ending
  cases last with
  | done r =>
    cases hlast
    exact hsecure
  | stop cause =>
    cases hlast
    exact ⟨steps, cause, hcourse, rfl, hsecure⟩
  | step s next => cases hlast

/-- A host that answers every effect with a list. -/
def lister : Handler Unit := fun _ _ _ => ⟨.ok (.list [.int 1]), [], ()⟩

/-- Names the answer of the host and passes it to the procedure `f`. -/
def askAndCall : Expr :=
  .effect "ask" [] (some "xs") (some (.call (.variable "f") [.variable "xs"]))

/-- Gives `f` a procedure that doubles its argument. -/
def withDouble : Environment :=
  ⟨[(.str "f", .closure 0 ["v"] (.arithmetic .add [.variable "v", .variable "v"]))]⟩

theorem eval_safe_doubled :
    let m₀ : Machine Unit := ⟨#[.empty], [], [], false, "", ()⟩
    askAndCall.evaluable = true ∧ m₀.Safe withDouble.toValue ∧
      AnswersSafely (some lister) ⟨evaluation true 4 askAndCall withDouble, m₀⟩ ∧
      (eval (some lister) 4 askAndCall withDouble).run.run m₀ =
        (.ok (.list [.int 1, .int 1], withDouble.extend "xs" (.list [.int 1])), m₀) ∧
      m₀.Safe (.list [.int 1, .int 1]) ∧
      m₀.Safe (withDouble.extend "xs" (.list [.int 1])).toValue := by
  intro m₀
  have he : askAndCall.evaluable = true := by decide
  have henv : m₀.Safe withDouble.toValue := by
    refine Machine.Safe.environment_iff.2 fun entry hentry => ?_
    obtain rfl := List.mem_singleton.1 hentry
    exact ⟨.str "f", .closure (.leaf rfl rfl) ["v"] (by decide)⟩
  have hanswers : AnswersSafely (some lister) ⟨evaluation true 4 askAndCall withDouble, m₀⟩ := by
    rintro steps name args next m answer v - ⟨⟩ ⟨⟩
    refine .of_parts rfl fun w hw => ?_
    obtain rfl := List.mem_singleton.1 hw
    exact .leaf rfl rfl
  have hrun : (eval (some lister) 4 askAndCall withDouble).run.run m₀ =
      (.ok (.list [.int 1, .int 1], withDouble.extend "xs" (.list [.int 1])), m₀) := by cbv
  have hsafe := eval_safe he henv hanswers
  rw [hrun] at hsafe
  exact ⟨he, henv, hanswers, hrun, hsafe⟩

end TreeScript
