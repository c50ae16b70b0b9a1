import TreeScript.Proofs.CallStack
import TreeScript.Proofs.DecodedPrograms

/-!
# Where the programs come from that are evaluated

An evaluation takes a program apart, and it enters the bodies of procedures. These come from the
program, or from what the evaluation is given: the environment with the scopes of its closures, and
the answers of the host.

So let `D` be a property of programs that is passed on to their parts (`Hereditary`). If the program
has it, and the bodies of all procedures that the environment and the answers bring in, then all
that is evaluated has it (`Job.Within.proper`), and so have the bodies of all procedures that are
returned (`eval_sustains`).
-/

namespace TreeScript

open Job (Part Reached Comes)

variable {σ : Type} {D : Expr → Prop} {handler : Option (Handler σ)}

/-- A property that is passed on from a program to those it is made of. -/
def Hereditary (D : Expr → Prop) : Prop := ∀ e, D e → ∀ c ∈ e.children, D c

namespace Job

/-- `t'` is evaluated in the course of `t`. -/
def Within (handler : Option (Handler σ)) : Job σ → Job σ → Prop :=
  Relation.ReflTransGen fun t t' => ∃ frame, Part handler t frame t'

/-- The program of an evaluation has a property, and the bodies of all procedures that can be
reached from its environment. -/
structure Proper (D : Expr → Prop) (t : Job σ) : Prop where
  /-- The program has it. -/
  expr : D t.expr
  /-- The bodies of the procedures have it. -/
  env : t.machine.Bears (fun _ => D) t.env.toValue

/-- If an evaluation is an effect that the host answers, the bodies of all procedures that can be
reached from the answer have a property. -/
def AnswersProper (handler : Option (Handler σ)) (D : Expr → Prop) (t : Job σ) : Prop :=
  ∀ {fuel name args bind next answer v m}, t.fuel = fuel + 1 →
    t.expr = .effect name args bind next →
    handler = some answer →
    (evalAnswer handler fuel t.env answer name args).run.run t.machine = (.ok v, m) →
    m.Bears (fun _ => D) v

/-- It is enough that this holds of all that the host can answer. -/
theorem AnswersProper.of_outcome (t : Job σ)
    (h : ∀ answer, handler = some answer →
      ∀ name args host v, (answer name args host).outcome = .ok v →
      ∀ m : Machine σ, m.Bears (fun _ => D) v) : t.AnswersProper handler D := by
  intro fuel name args bind next answer v m _ _ hhandler hrun
  obtain ⟨values, m₁, -, hrun⟩ := Run.bind_eq_ok.1 hrun
  have hask : (Run.ask handler name values).run.run m₁ = (.ok v, m) := by
    rw [hhandler]
    exact hrun
  obtain ⟨-, -, answer', hhandler', houtcome⟩ := Run.ask_eq_ok hask
  exact h answer' hhandler' name values m₁.host v houtcome m

/-- All effects in the course of an evaluation are answered so. -/
def Hosted (handler : Option (Handler σ)) (D : Expr → Prop) (t : Job σ) : Prop :=
  ∀ t', Within handler t t' → t'.AnswersProper handler D

theorem Hosted.part {t t' : Job σ} {frame : Option Frame} (h : t.Hosted handler D)
    (hpart : Part handler t frame t') : t'.Hosted handler D :=
  fun t'' hwithin => h t'' (.head ⟨frame, hpart⟩ hwithin)

end Job

/-- What an evaluation has returned from a machine: the property is maintained, and it holds of the
procedures that can be reached from the value and the environment. -/
structure Sustained (D : Expr → Prop) (m m' : Machine σ) (r : Value × Environment) : Prop where
  /-- What had the property has it still. -/
  maintains : Machine.Maintains (fun _ => D) m m'
  /-- The value has it. -/
  value : m'.Bears (fun _ => D) r.1
  /-- The environment has it. -/
  env : m'.Bears (fun _ => D) r.2.toValue

/-- What holds of the evaluations that have an amount of fuel, by induction. -/
def Sustains (handler : Option (Handler σ)) (D : Expr → Prop) (fuel : Nat) : Prop :=
  ∀ {t : Job σ} {r m}, t.fuel = fuel → t.Proper D → t.Hosted handler D →
    t.run handler = (.ok r, m) → Sustained D t.machine m r

/-! ## Programs in turn -/

section Turn

variable {fuel : Nat} {env : Environment} {m m' : Machine σ}

/-- Of programs that are evaluated in turn, each finds what it needs. -/
theorem Job.Reached.proper (hsustains : Sustains handler D fuel) {es : List Expr} {t : Job σ}
    (h : Reached handler fuel env es m t) (hes : ∀ e ∈ es, D e)
    (henv : m.Bears (fun _ => D) env.toValue)
    (hhosted : ∀ t, Reached handler fuel env es m t → t.Hosted handler D) :
    t.Proper D ∧ Machine.Maintains (fun _ => D) m t.machine := by
  induction h with
  | first => exact ⟨⟨hes _ List.mem_cons_self, henv⟩, .refl _⟩
  | later hrun hrest ih =>
    obtain ⟨he, hes⟩ := List.forall_mem_cons.1 hes
    have hfirst := hsustains rfl ⟨he, henv⟩ (hhosted _ .first) hrun
    have hlater := ih hes (hfirst.maintains _ henv) fun t ht => hhosted t (.later hrun ht)
    exact ⟨hlater.1, hfirst.maintains.trans hlater.2⟩

theorem evalOperands_sustains (hsustains : Sustains handler D fuel) {es : List Expr}
    {values : List Value} (h : (evalOperands handler fuel env es).run.run m = (.ok values, m'))
    (hes : ∀ e ∈ es, D e) (henv : m.Bears (fun _ => D) env.toValue)
    (hhosted : ∀ t, Reached handler fuel env es m t → t.Hosted handler D) :
    Machine.Maintains (fun _ => D) m m' ∧ ∀ v ∈ values, m'.Bears (fun _ => D) v := by
  induction es generalizing m values with
  | nil =>
    cases h
    exact ⟨.refl _, fun _ hv => nomatch hv⟩
  | cons e es ih =>
    obtain ⟨he, hes⟩ := List.forall_mem_cons.1 hes
    rw [evalOperands, List.mapM_cons, map_eq_pure_bind, bind_assoc] at h
    obtain ⟨r, m₁, hrun, h⟩ := Run.bind_eq_ok.1 h
    rw [pure_bind] at h
    obtain ⟨others, m₂, hothers, h⟩ := Run.bind_eq_ok.1 h
    cases h
    have hfirst := hsustains rfl ⟨he, henv⟩ (hhosted _ .first) hrun
    obtain ⟨hrest, hvalues⟩ := ih hothers hes (hfirst.maintains _ henv)
      fun t ht => hhosted t (.later hrun ht)
    exact ⟨hfirst.maintains.trans hrest,
      List.forall_mem_cons.2 ⟨hrest _ hfirst.value, hvalues⟩⟩

theorem evalArgs_sustains (hsustains : Sustains handler D fuel) {args : List (Value × Arg)}
    {values : Bindings} (h : (args.mapM (evalArg handler fuel env)).run.run m = (.ok values, m'))
    (hargs : ∀ e ∈ argExprs args, D e) (henv : m.Bears (fun _ => D) env.toValue)
    (hhosted : ∀ t, Reached handler fuel env (argExprs args) m t → t.Hosted handler D) :
    Machine.Maintains (fun _ => D) m m' := by
  induction args generalizing m values with
  | nil =>
    cases h
    exact .refl _
  | cons entry args ih =>
    obtain ⟨key, arg⟩ := entry
    rw [List.mapM_cons] at h
    obtain ⟨value, m₁, hrun, h⟩ := Run.bind_eq_ok.1 h
    obtain ⟨others, m₂, hothers, h⟩ := Run.bind_eq_ok.1 h
    cases h
    cases arg with
    | literal v =>
      cases hrun
      exact ih hothers hargs henv hhosted
    | expr e =>
      obtain ⟨he, hargs⟩ := List.forall_mem_cons.1 hargs
      obtain ⟨r, m₂, heval, hpair⟩ := Run.bind_eq_ok.1 hrun
      cases hpair
      have hfirst := hsustains rfl ⟨he, henv⟩ (hhosted _ .first) heval
      exact hfirst.maintains.trans (ih hothers hargs (hfirst.maintains _ henv)
        fun t ht => hhosted t (.later heval ht))

end Turn

/-! ## The parts of an evaluation -/

section Parts

variable {fuel : Nat} {env : Environment} {m m' : Machine σ}

theorem callTarget_sustains (hsustains : Sustains handler D fuel) {callee : Expr}
    {arguments : List Expr} {target : Value}
    (h : (callTarget handler fuel env callee).run.run m = (.ok target, m')) (hcallee : D callee)
    (henv : m.Bears (fun _ => D) env.toValue)
    (hhosted : Job.Hosted handler D ⟨fuel + 1, .call callee arguments, env, m⟩) :
    Machine.Maintains (fun _ => D) m m' ∧ m'.Bears (fun _ => D) target := by
  by_cases hvariable : ∃ key, callee = .variable key
  · obtain ⟨key, rfl⟩ := hvariable
    rw [callTarget] at h
    cases hlookup : env.lookup key with
    | error failure =>
      rw [hlookup] at h
      cases h
    | ok v =>
      rw [hlookup] at h
      cases h
      exact ⟨.refl _, henv.lookup hlookup⟩
  · have hinPlace : ∀ key, callee ≠ .variable key := fun key hkey => hvariable ⟨key, hkey⟩
    rw [callTarget.eq_2 _ _ _ _ hinPlace, map_eq_pure_bind] at h
    obtain ⟨r, m₁, hrun, h⟩ := Run.bind_eq_ok.1 h
    cases h
    have hcalled := hsustains rfl ⟨hcallee, henv⟩ (hhosted.part (.callee hinPlace)) hrun
    exact ⟨hcalled.maintains, hcalled.value⟩

theorem chosenBranch_sustains (hsustains : Sustains handler D fuel)
    {condition onTrue onFalse branch : Expr}
    (h : (chosenBranch handler fuel env condition onTrue onFalse).run.run m = (.ok branch, m'))
    (hcondition : D condition) (henv : m.Bears (fun _ => D) env.toValue)
    (hhosted : Job.Hosted handler D ⟨fuel + 1, .conditional condition onTrue onFalse, env, m⟩) :
    Machine.Maintains (fun _ => D) m m' ∧ (branch = onTrue ∨ branch = onFalse) := by
  rw [chosenBranch] at h
  obtain ⟨r, m₁, hrun, h⟩ := Run.bind_eq_ok.1 h
  obtain ⟨_, m₂, htell, h⟩ := Run.bind_eq_ok.1 h
  cases h
  have hcalled := hsustains rfl ⟨hcondition, henv⟩ (hhosted.part .condition) hrun
  have hscopes : m'.scopes = m₁.scopes :=
    @Step.scopes_eq _ handler (.branch r.1.isTruthy _) () m₁ m' htell
  refine ⟨hcalled.maintains.trans (.of_scopes_eq hscopes), ?_⟩
  split
  · exact .inl rfl
  · exact .inr rfl

theorem evalAnswer_sustains (hsustains : Sustains handler D fuel) {answer : Handler σ}
    {name : String}
    {args : List (Value × Arg)} {bind : Option String} {next : Option Expr} {v : Value}
    (hhandler : handler = some answer)
    (h : (evalAnswer handler fuel env answer name args).run.run m = (.ok v, m'))
    (hargs : ∀ e ∈ argExprs args, D e) (henv : m.Bears (fun _ => D) env.toValue)
    (hhosted : Job.Hosted handler D ⟨fuel + 1, .effect name args bind next, env, m⟩) :
    Machine.Maintains (fun _ => D) m m' ∧ m'.Bears (fun _ => D) v := by
  refine ⟨?_, hhosted _ .refl rfl rfl hhandler h⟩
  rw [evalAnswer] at h
  obtain ⟨values, m₁, hvalues, h⟩ := Run.bind_eq_ok.1 h
  have hask : (Run.ask handler name values).run.run m₁ = (.ok v, m') := by
    rw [hhandler]
    exact h
  have hmaintains := evalArgs_sustains hsustains hvalues hargs henv fun t ht =>
    hhosted.part (.effectArgument (by rw [hhandler]; rfl) ht)
  exact hmaintains.trans (.of_scopes_eq (Run.ask_eq_ok hask).1)

/-- A part of an evaluation finds what it needs. -/
theorem Job.Part.proper (hD : Hereditary D) (hsustains : Sustains handler D fuel) {t t' : Job σ}
    {frame : Option Frame} (hfuel : t.fuel = fuel + 1) (ht : t.Proper D)
    (hhosted : t.Hosted handler D) (h : Part handler t frame t') :
    t'.Proper D ∧ Machine.Maintains (fun _ => D) t.machine t'.machine := by
  have hchildren := hD _ ht.expr
  have henv := ht.env
  cases h with
  | value => exact ⟨⟨hchildren _ List.mem_cons_self, henv⟩, .refl _⟩
  | arithmetic hreached =>
    cases hfuel
    exact hreached.proper hsustains hchildren henv fun t ht => hhosted.part (.arithmetic ht)
  | comparison hreached =>
    cases hfuel
    exact hreached.proper hsustains hchildren henv fun t ht => hhosted.part (.comparison ht)
  | condition => exact ⟨⟨hchildren _ List.mem_cons_self, henv⟩, .refl _⟩
  | branch hrun =>
    cases hfuel
    obtain ⟨hmaintains, hbranch⟩ :=
      chosenBranch_sustains hsustains hrun (hchildren _ List.mem_cons_self) henv hhosted
    refine ⟨⟨hchildren _ ?_, hmaintains _ henv⟩, hmaintains⟩
    rcases hbranch with rfl | rfl
    · exact List.mem_cons_of_mem _ List.mem_cons_self
    · exact List.mem_cons_of_mem _ (List.mem_cons_of_mem _ List.mem_cons_self)
  | callee => exact ⟨⟨hchildren _ List.mem_cons_self, henv⟩, .refl _⟩
  | argument htarget hreached =>
    cases hfuel
    obtain ⟨hcallee, harguments⟩ := List.forall_mem_cons.1 hchildren
    obtain ⟨hmaintains, -⟩ := callTarget_sustains hsustains htarget hcallee henv hhosted
    obtain ⟨hproper, hlater⟩ := hreached.proper hsustains harguments (hmaintains _ henv)
      fun t ht => hhosted.part (.argument htarget ht)
    exact ⟨hproper, hmaintains.trans hlater⟩
  | @body _ callee arguments env ref inputs body values m m₁ m₂ htarget hvalues =>
    cases hfuel
    obtain ⟨hcallee, harguments⟩ := List.forall_mem_cons.1 hchildren
    obtain ⟨hmaintains, hclosure⟩ := callTarget_sustains hsustains htarget hcallee henv hhosted
    obtain ⟨hlater, hbound⟩ := evalOperands_sustains hsustains hvalues harguments
      (hmaintains _ henv) fun t ht => hhosted.part (.argument htarget ht)
    -- Entering the call leaves the scopes alone.
    have hentered : Machine.Maintains (fun _ => D) m₂
        { m₂ with calls := m₂.calls ++ [⟨callee.callName, values⟩] } := .of_scopes_eq rfl
    refine ⟨⟨hclosure.procedure, hentered _ ?_⟩, (hmaintains.trans hlater).trans hentered⟩
    exact (hlater _ hclosure).scope.extendMany (.bindInputs hbound _)
  | effectArgument hsome hreached =>
    cases hfuel
    exact hreached.proper hsustains (fun e he => hchildren e (List.mem_append_left _ he)) henv
      fun t ht => hhosted.part (.effectArgument hsome ht)
  | next hhandler hrun =>
    cases hfuel
    obtain ⟨hmaintains, hv⟩ := evalAnswer_sustains hsustains hhandler hrun
      (fun e he => hchildren e (List.mem_append_left _ he)) henv hhosted
    refine ⟨⟨hchildren _ (List.mem_append_right _ List.mem_cons_self), ?_⟩, hmaintains⟩
    exact (hmaintains _ henv).bindAnswer _ hv

end Parts

/-! ## Whole evaluations -/

theorem fold_bears {m : Machine σ} {P : List String → Expr → Prop} {op : ArithmeticOp}
    {operands : List Value} {v : Value} (hoperands : ∀ w ∈ operands, m.Bears P w)
    (h : op.fold operands = .ok v) : m.Bears P v := by
  have hne : operands ≠ [] := by
    rintro rfl
    cases h
  have hfold := op.fold_ofOperator (fun _ _ _ => Machine.Bears.madeOf) hoperands hne
  rw [h] at hfold
  exact hfold

/-- An evaluation returns procedures only the bodies of which have the property. The induction is on
the fuel, since a call goes on with the body of a closure. -/
theorem eval_sustains (hD : Hereditary D) (handler : Option (Handler σ)) (fuel : Nat) :
    Sustains handler D fuel := by
  induction fuel with
  | zero =>
    rintro ⟨_, e, env, m⟩ r m' rfl - - hrun
    cases hrun
  | succ fuel ih =>
    rintro ⟨_, e, env, m⟩ r m' rfl ht hhosted hrun
    have henv : m.Bears (fun _ => D) env.toValue := ht.env
    -- each part starts properly (`hpart`), and so its result is as it should be (`hresult`)
    have hpart {frame t'} (h : Part handler ⟨fuel + 1, e, env, m⟩ frame t') :=
      h.proper hD ih rfl ht hhosted
    have hresult {frame t' r m'} (h : Part handler ⟨fuel + 1, e, env, m⟩ frame t')
        (hfuel : t'.fuel = fuel) (hrun : t'.run handler = (.ok r, m')) :=
      ih hfuel (hpart h).1 (hhosted.part h) hrun
    change (eval handler (fuel + 1) e env).run.run m = (.ok r, m') at hrun
    cases e with
    | number n =>
      cases hrun
      exact ⟨.refl _, .leaf (by cases n <;> rfl) (by cases n <;> rfl), henv⟩
    | string s =>
      cases hrun
      exact ⟨.refl _, .str s, henv⟩
    | boolean b =>
      cases hrun
      exact ⟨.refl _, .leaf rfl rfl, henv⟩
    | «variable» key =>
      rw [eval] at hrun
      obtain ⟨v, m₁, hlookup, hrun⟩ := Run.bind_eq_ok.1 hrun
      cases hrun
      obtain ⟨hv, rfl⟩ := Run.ofResult_eq_ok hlookup
      exact ⟨.refl _, henv.lookup hv, henv⟩
    | definition key value =>
      rw [eval] at hrun
      obtain ⟨⟨v, after⟩, m₁, hvalue, hrun⟩ := Run.bind_eq_ok.1 hrun
      dsimp only at hrun
      rw [← bind_assoc] at hrun
      obtain ⟨_, m₂, hdefine, hrun⟩ := Run.bind_eq_ok.1 hrun
      cases hrun
      have hvalue' := hresult .value rfl hvalue
      have hextended := (hvalue'.maintains _ henv).extend key hvalue'.value
      have hadopt : Machine.Maintains (fun _ => D) m₁ m' := .adopt v hextended
        (@Step.scopes_eq _ handler (.define key v (env.extend key v)) () m₁ m' hdefine)
      exact ⟨hvalue'.maintains.trans hadopt, .leaf rfl rfl, hadopt _ hextended⟩
    | procedure inputs body =>
      cases hrun
      have hpush : Machine.Maintains (fun _ => D) m { m with scopes := m.scopes.push env } :=
        .push henv rfl
      refine ⟨hpush, .closure ?_ (hD _ ht.expr _ List.mem_cons_self), hpush _ henv⟩
      -- the scope of the closure is the last one, and it is the environment itself
      show Machine.Bears _ _ ((m.scopes.push env).getD m.scopes.size .empty).toValue
      rw [getD_push, if_pos rfl]
      exact hpush _ henv
    | arithmetic op operands =>
      rw [eval] at hrun
      obtain ⟨values, m₁, hvalues, hrun⟩ := Run.bind_eq_ok.1 hrun
      obtain ⟨v, m₂, hfold, hrun⟩ := Run.bind_eq_ok.1 hrun
      cases hrun
      obtain ⟨hv, rfl⟩ := Run.ofResult_eq_ok hfold
      obtain ⟨hmaintains, hbound⟩ := evalOperands_sustains ih hvalues (hD _ ht.expr) henv
        fun t ht => hhosted.part (.arithmetic ht)
      exact ⟨hmaintains, fold_bears hbound hv, hmaintains _ henv⟩
    | comparison op operands =>
      rw [eval] at hrun
      obtain ⟨values, m₁, hvalues, hrun⟩ := Run.bind_eq_ok.1 hrun
      obtain ⟨v, m₂, hchain, hrun⟩ := Run.bind_eq_ok.1 hrun
      cases hrun
      obtain ⟨-, rfl⟩ := Run.ofResult_eq_ok hchain
      obtain ⟨hmaintains, -⟩ := evalOperands_sustains ih hvalues (hD _ ht.expr) henv
        fun t ht => hhosted.part (.comparison ht)
      exact ⟨hmaintains, .leaf rfl rfl, hmaintains _ henv⟩
    | conditional condition onTrue onFalse =>
      rw [eval_conditional] at hrun
      obtain ⟨branch, m₁, hchosen, hrun⟩ := Run.bind_eq_ok.1 hrun
      have hbranch := hresult (.branch hchosen) rfl hrun
      exact ⟨(hpart (.branch hchosen)).2.trans hbranch.maintains, hbranch.value, hbranch.env⟩
    | call callee arguments =>
      rw [eval_call] at hrun
      obtain ⟨target, m₁, htarget, hrun⟩ := Run.bind_eq_ok.1 hrun
      cases target with
      | closure ref inputs body =>
        rw [callOn] at hrun
        obtain ⟨values, m₂, hvalues, hrun⟩ := Run.bind_eq_ok.1 hrun
        obtain ⟨scope, m₃, hscope, hrun⟩ := Run.bind_eq_ok.1 hrun
        cases hscope
        obtain ⟨_, m₄, henter, hrun⟩ := Run.bind_eq_ok.1 hrun
        cases henter
        obtain ⟨r₁, m₅, hbody, hrun⟩ := Run.bind_eq_ok.1 hrun
        cases hrun
        have hentered := hpart (.body htarget hvalues)
        have hbody' := hresult (.body htarget hvalues) rfl hbody
        -- leaving the body drops a call and no scope
        have hleft : Machine.Maintains (fun _ => D) m₅ { m₅ with calls := m₅.calls.dropLast } :=
          .of_scopes_eq rfl
        have hmaintains := (hentered.2.trans hbody'.maintains).trans hleft
        exact ⟨hmaintains, hleft _ hbody'.value, hmaintains _ henv⟩
      | _ => cases hrun
    | effect name args bind next =>
      cases handler with
      | none => cases hrun
      | some answer =>
        rw [eval_effect_some, evalEffect_eq] at hrun
        obtain ⟨v, m₁, hanswer, hrun⟩ := Run.bind_eq_ok.1 hrun
        cases next with
        | none =>
          cases hrun
          obtain ⟨hmaintains, hv⟩ := evalAnswer_sustains ih rfl hanswer
            (fun e he => hD _ ht.expr e (List.mem_append_left _ he)) henv hhosted
          exact ⟨hmaintains, hv, (hmaintains _ henv).bindAnswer bind hv⟩
        | some continuation =>
          have hnext := hresult (.next rfl hanswer) rfl hrun
          exact ⟨(hpart (.next rfl hanswer)).2.trans hnext.maintains, hnext.value, hnext.env⟩
    | block items => cases hrun

/-- All that is evaluated in the course of an evaluation has the property. -/
theorem Job.Within.proper (hD : Hereditary D) {t t' : Job σ} (h : Within handler t t')
    (ht : t.Proper D) (hhosted : t.Hosted handler D) : t'.Proper D := by
  induction h with
  | refl => exact ht
  | @tail t₁ t₂ hwithin hpart ih =>
    obtain ⟨frame, hpart⟩ := hpart
    have hhosted₁ : t₁.Hosted handler D := fun t hwithin' => hhosted t (hwithin.trans hwithin')
    exact (hpart.proper hD (eval_sustains hD handler _) hpart.fuel_eq ih hhosted₁).1

/-- All that is evaluated in the course of programs that are run in order. -/
def Job.Occurs (handler : Option (Handler σ)) (fuel : Nat) (es : List Expr) (env : Environment)
    (m : Machine σ) (t : Job σ) : Prop :=
  ∃ t₀, Comes handler fuel es env m t₀ ∧ Within handler t₀ t

/-- If a property holds of programs that are run in order, and of the procedures that the
environment and the answers of the host bring in, it holds of all that is evaluated. -/
theorem Job.Occurs.proper (hD : Hereditary D) {fuel : Nat} {es : List Expr} {env : Environment}
    {m : Machine σ} (hes : ∀ e ∈ es, D e) (henv : m.Bears (fun _ => D) env.toValue)
    (hanswers : ∀ t, Occurs handler fuel es env m t → t.AnswersProper handler D) {t : Job σ}
    (h : Occurs handler fuel es env m t) : t.Proper D := by
  obtain ⟨t₀, hcomes, hwithin⟩ := h
  induction hcomes with
  | first =>
    exact hwithin.proper hD ⟨hes _ List.mem_cons_self, henv⟩ fun t' h => hanswers t' ⟨_, .first, h⟩
  | later hrun hrest ih =>
    obtain ⟨he, hes⟩ := List.forall_mem_cons.1 hes
    have hfirst := eval_sustains hD handler _ rfl ⟨he, henv⟩
      (fun t' h => hanswers t' ⟨_, .first, h⟩) hrun
    refine ih hes hfirst.env (fun t' ht' => ?_) hwithin
    obtain ⟨t₁, hcomes, hwithin⟩ := ht'
    exact hanswers t' ⟨t₁, .later hrun hcomes, hwithin⟩

end TreeScript
