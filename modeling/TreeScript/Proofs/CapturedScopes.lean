import TreeScript.Proofs.Course
import TreeScript.Proofs.Operators

/-!
# What a closure captures

A procedure is evaluated in the scope of its closure. The scope is the environment in which the
closure was made until a definition binds the closure; from then on it is that of the definition, in
which the closure has its name. All holders of a closure share its scope, so a second definition
that gets hold of the closure under another name (from a variable, an argument, an answer of the
host) gives it another scope again.

The main statement `scope_of_latest_binding` is about every state of every run of programs. The
scope of a closure that a definition has bound is the environment of the latest definition that
bound it, whatever else has happened in between, and a call looks up the free names of the body
there.

What scripts of programs can come to is found in one induction (`evaluation_keeps`), for whatever
property of values they keep.
-/

namespace TreeScript

/-! ## Names of an environment -/

theorem Value.eq_str_of_alike {v : Value} {key : String} (h : v.alike (.str key) = true) :
    v = .str key := by
  cases v <;> simp_all [alike, sameNaN, equal, Number.equalValue, number?]

/-- Binding a name. A key that is like the name is the name, so no other is bound again. -/
theorem Bindings.lookup?_put (bs : Bindings) (key : String) (name v : Value) :
    (bs.put (.str key) v).lookup? name =
      if name.alike (.str key) then some v else bs.lookup? name := by
  induction bs with
  | nil => exact lookup?_cons (.str key) v [] name
  | cons entry rest ih =>
    obtain ⟨k, w⟩ := entry
    rw [put]
    split
    · rename_i h
      obtain rfl := (Value.alike_str_iff key k).1 h
      rw [lookup?_cons, lookup?_cons]
      split <;> rfl
    · rename_i h
      rw [lookup?_cons, lookup?_cons, ih]
      by_cases hname : name.alike (.str key) = true
      · rw [if_pos hname, if_pos hname, Value.eq_str_of_alike hname, if_neg h]
      · rw [if_neg hname, if_neg hname]

theorem Bindings.get?_put (bs : Bindings) (key name : String) (v : Value) :
    (bs.put (.str key) v).get? name = if name = key then some v else bs.get? name := by
  have h := lookup?_put bs key (.str name) v
  simp only [Value.alike_str, beq_iff_eq] at h
  exact h

namespace Environment

theorem lookup_congr {env env' : Environment} {name : String}
    (h : env.find? (.str name) = env'.find? (.str name)) : env.lookup name = env'.lookup name := by
  unfold lookup
  rw [h]

theorem find?_extend (env : Environment) (key name : String) (v : Value) :
    (env.extend key v).find? (.str name) = if name = key then some v else env.find? (.str name) :=
  Bindings.get?_put env.bindings key name v

theorem lookup_extend_closure (env : Environment) (key : String) (ref : ScopeRef)
    (inputs : List String) (body : Expr) :
    (env.extend key (.closure ref inputs body)).lookup key = .ok (.closure ref inputs body) := by
  unfold lookup
  rw [find?_extend, if_pos rfl]
  rfl

/-- Names that are not bound keep their values. -/
theorem lookup_extendMany (env : Environment) {pairs : List (String × Value)} {name : String}
    (h : name ∉ pairs.map Prod.fst) : (env.extendMany pairs).lookup name = env.lookup name := by
  induction pairs generalizing env with
  | nil => rfl
  | cons pair rest ih =>
    rw [List.map_cons, List.mem_cons, not_or] at h
    calc (env.extendMany (pair :: rest)).lookup name
        = (env.extend pair.1 pair.2).lookup name := ih _ h.2
      _ = env.lookup name := lookup_congr (by rw [find?_extend, if_neg h.1])

end Environment

/-- All values that an environment gives names have a property. -/
def Environment.Binds (P : Value → Prop) (env : Environment) : Prop :=
  ∀ key v, env.find? (.str key) = some v → P v

namespace Environment.Binds

variable {P : Value → Prop} {env : Environment}

theorem lookup (h : env.Binds P) {key : String} {v : Value}
    (hv : env.lookup key = .ok v) : P v := by
  unfold Environment.lookup at hv
  split at hv
  · cases hv
  · cases hv
  · rename_i hfind
    cases hv
    exact h key _ hfind

theorem extend (h : env.Binds P) (key : String) {v : Value} (hv : P v) :
    (env.extend key v).Binds P := by
  intro name w hfind
  rw [find?_extend] at hfind
  split at hfind
  · cases hfind
    exact hv
  · exact h name w hfind

/-- A call enters its body with all arguments bound. Inputs without one are bound to the mark. -/
theorem bindInputs (h : env.Binds P) {args : List Value} (hargs : ∀ v ∈ args, P v)
    (hmark : P .undefined) (inputs : List String) :
    (env.extendMany (bindInputs inputs args)).Binds P := by
  induction inputs generalizing env args with
  | nil => exact h
  | cons name names ih =>
    cases args with
    | nil => exact ih (h.extend name hmark) hargs
    | cons v vs =>
      obtain ⟨hv, hvs⟩ := List.forall_mem_cons.1 hargs
      exact ih (h.extend name hv) hvs

end Environment.Binds

theorem bindInputs_names (inputs : List String) (args : List Value) :
    (bindInputs inputs args).map Prod.fst = inputs := by
  induction inputs generalizing args with
  | nil => rfl
  | cons name names ih =>
    cases args with
    | nil => exact congrArg (name :: ·) (ih [])
    | cons v vs => exact congrArg (name :: ·) (ih vs)

/-! ## The scope of a closure on the way -/

/-- The environment that a step gives a closure for a scope. -/
def Step.gives? (ref : ScopeRef) : Step → Option Environment
  | .define _ (.closure r _ _) env => if r = ref then some env else none
  | _ => none

/-- The environments that steps give a closure, in order. -/
def given (ref : ScopeRef) (steps : List Step) : List Environment :=
  steps.filterMap (Step.gives? ref)

theorem given_cons (ref : ScopeRef) (s : Step) (steps : List Step) (env : Environment) :
    (given ref (s :: steps)).getLastD env =
      (given ref steps).getLastD ((s.gives? ref).getD env) := by
  unfold given
  rw [List.filterMap_cons]
  cases s.gives? ref with
  | none => rfl
  | some env' => exact List.getLastD_cons ..

theorem Step.size_le_onScopes (s : Step) (scopes : Array Environment) :
    scopes.size ≤ (s.onScopes scopes).size := by
  cases s with
  | close env => simp [onScopes]
  | define key value env => cases value <;> simp [onScopes, adopted]
  | _ => exact Nat.le_refl _

/-- A closure that has been made keeps its scope in a step, unless the step gives it another. -/
theorem Step.getD_onScopes (s : Step) {scopes : Array Environment} {ref : ScopeRef}
    (href : ref < scopes.size) :
    (s.onScopes scopes).getD ref .empty = (s.gives? ref).getD (scopes.getD ref .empty) := by
  cases s with
  | close env => exact (getD_push scopes env ref).trans (if_neg (Nat.ne_of_lt href))
  | define key value env =>
    cases value with
    | closure r inputs body =>
      show (scopes.setIfInBounds r env).getD ref .empty =
        (if r = ref then some env else none).getD (scopes.getD ref .empty)
      by_cases hr : r = ref
      · rw [hr, getD_setIfInBounds href, if_pos rfl, if_pos rfl]
        rfl
      · rw [if_neg hr, Array.getD_eq_getD_getElem?, Array.getElem?_setIfInBounds_ne hr,
          Array.getD_eq_getD_getElem?]
        rfl
    | _ => rfl
  | _ => rfl

variable {σ α β : Type} {handler : Option (Handler σ)}

/-- The scope of a closure after a run is what the last definition that bound it made it. -/
theorem Course.scope_eq {c c' : RunState σ α} {steps : List Step} (h : Course handler c steps c')
    {ref : ScopeRef} (href : ref < c.machine.scopes.size) :
    c'.machine.scope ref = (given ref steps).getLastD (c.machine.scope ref) := by
  have hfold : ∀ (steps : List Step) (scopes : Array Environment), ref < scopes.size →
      (steps.foldl (fun scopes s => s.onScopes scopes) scopes).getD ref .empty =
        (given ref steps).getLastD (scopes.getD ref .empty) := by
    intro steps
    induction steps with
    | nil => exact fun _ _ => rfl
    | cons s steps ih =>
      intro scopes hlt
      rw [List.foldl_cons, ih _ (Nat.lt_of_lt_of_le hlt (s.size_le_onScopes scopes)),
        s.getD_onScopes hlt, given_cons]
  unfold Machine.scope
  rw [h.scopes_eq]
  exact hfold steps _ href

/-! ## Definitions and calls of an evaluation -/

/-- What is made a closure is a procedure. A definition binds its name in the environment that it
makes. A call goes on with the body of a procedure, in the scope with the inputs bound to the
arguments. -/
def Step.Fits (hosted : Bool) : (s : Step) → (s.Reply → Script α) → Prop
  | .close env, next => ∃ inputs body, ∃ rest : Value × Environment → Script α,
      ∀ ref : ScopeRef, next ref = rest (.closure ref inputs body, env)
  | .define key value env, _ => ∃ before : Environment, env = before.extend key value
  | .enter _ frame, next => ∃ fuel inputs body rest, ∀ scope : Environment,
      next scope =
        (evaluation hosted fuel body (scope.extendMany (bindInputs inputs frame.args))).bind rest
  | _, _ => True

/-- All definitions and calls that a script may come to are such. -/
def Script.Regular (hosted : Bool) : Script α → Prop
  | .done _ => True
  | .stop _ => True
  | .step s next => s.Fits hosted next ∧ ∀ r, (next r).Regular hosted

/-- What an evaluation keeps to: it holds values with a property, and enters closures with one.
While it goes on, more and more may have them. -/
structure Holding (W : Type) where
  /-- What there is more of. -/
  le : W → W → Prop
  /-- The values. -/
  value : W → Value → Prop
  /-- The closures. -/
  closure : W → ScopeRef → Prop
  refl : ∀ w, le w w
  trans : ∀ {w₁ w₂ w₃}, le w₁ w₂ → le w₂ w₃ → le w₁ w₃
  mono : ∀ {w w' v}, value w v → le w w' → value w' v
  closure_iff : ∀ {w ref inputs body}, value w (.closure ref inputs body) ↔ closure w ref
  leaf : ∀ {w v}, v.isClosure = false → v.parts = [] → value w v
  madeOf : ∀ {w a b v}, value w a → value w b → Value.MadeOf a b v → value w v

variable {W : Type}

namespace Holding

variable (H : Holding W) (w : W)

/-- So it is for all values that an environment gives names. -/
abbrev env (env : Environment) : Prop := env.Binds (H.value w)

/-- So it is for what an evaluation returns. -/
def Returns (r : Value × Environment) : Prop := H.value w r.1 ∧ H.env w r.2

/-- So it is for what programs return. -/
def Ends (r : List Value × Environment) : Prop := (∀ v ∈ r.1, H.value w v) ∧ H.env w r.2

/-- What a step is about is held. The arguments of an effect need not be, because of literals. -/
def Asks : Step → Prop
  | .close env => H.env w env
  | .define _ value env => H.value w value ∧ H.env w env
  | .enter ref frame => H.closure w ref ∧ ∀ v ∈ frame.args, H.value w v
  | _ => True

/-- What a step gets back is held. -/
def Gets : (s : Step) → s.Reply → Prop
  | .close _, (ref : ScopeRef) => H.closure w ref
  | .enter .., (scope : Environment) => H.env w scope
  | .perform .., (v : Value) => H.value w v
  | _, _ => True

variable {H w} {w' : W}

theorem env_mono {env : Environment} (h : H.env w env) (hle : H.le w w') : H.env w' env :=
  fun key v hfind => H.mono (h key v hfind) hle

end Holding

/-- A regular script that keeps to what it holds and gets, and ends with what satisfies `Q`. -/
def Script.Keeps (hosted : Bool) (H : Holding W) (Q : W → α → Prop) : Script α → W → Prop
  | .done a, w => Q w a
  | .stop _, _ => True
  | .step s next, w => s.Fits hosted next ∧ H.Asks w s ∧
      ∀ w', H.le w w' → ∀ r, H.Gets w' s r → (next r).Keeps hosted H Q w'

namespace Script.Keeps

variable {hosted : Bool} {H : Holding W} {Q : W → α → Prop} {R : W → β → Prop} {w : W}

theorem bind {x : Script α} {f : α → Script β} (hx : x.Keeps hosted H Q w)
    (hf : ∀ w' a, H.le w w' → Q w' a → (f a).Keeps hosted H R w') :
    (x >>= f).Keeps hosted H R w := by
  show (x.bind f).Keeps hosted H R w
  induction x generalizing w with
  | done a => exact hf w a (H.refl w) hx
  | stop cause => exact trivial
  | step s next ih =>
    obtain ⟨hfits, hasks, hnext⟩ := hx
    refine ⟨?_, hasks, fun w₁ h₁ r hr => ih r (hnext w₁ h₁ r hr) fun w₂ a h₂ ha => ?_⟩
    · cases s with
      | close env =>
        obtain ⟨inputs, body, rest, hrest⟩ := hfits
        exact ⟨inputs, body, fun a => (rest a).bind f, fun ref => congrArg (·.bind f) (hrest ref)⟩
      | define key value env => exact hfits
      | enter ref frame =>
        obtain ⟨fuel, inputs, body, rest, hrest⟩ := hfits
        exact ⟨fuel, inputs, body, fun a => (rest a).bind f, fun scope =>
          (congrArg (·.bind f) (hrest scope)).trans (bind_bind _ rest f)⟩
      | _ => exact trivial
    · exact hf w₂ a (H.trans h₁ h₂) ha

theorem mapM {f : α → Script β} (hmono : ∀ {w w' b}, R w b → H.le w w' → R w' b)
    (hf : ∀ a w', H.le w w' → (f a).Keeps hosted H R w') (items : List α) :
    (items.mapM f).Keeps hosted H (fun w bs => ∀ b ∈ bs, R w b) w := by
  induction items generalizing w with
  | nil => exact fun _ hb => absurd hb List.not_mem_nil
  | cons a rest ih =>
    rw [List.mapM_cons]
    refine (hf a w (H.refl w)).bind fun w₁ b h₁ hb => ?_
    refine (ih fun a w₂ h₂ => hf a w₂ (H.trans h₁ h₂)).bind fun w₂ bs h₂ hbs => ?_
    exact List.forall_mem_cons.2 ⟨hmono hb h₂, hbs⟩

theorem lookup {env : Environment} (henv : H.env w env) (key : String) :
    (lookup env key).Keeps hosted H H.value w := by
  unfold Script.lookup
  cases hv : env.lookup key with
  | ok v => exact henv.lookup hv
  | error failure => exact trivial

theorem combine (op : ArithmeticOp) {operands : List Value} (h : ∀ v ∈ operands, H.value w v) :
    (combine op operands).Keeps hosted H H.value w := by
  unfold Script.combine
  cases hv : op.fold operands with
  | error failure => exact trivial
  | ok v =>
    have hne : operands ≠ [] := by
      rintro rfl
      cases hv
    have hfold := op.fold_ofOperator (fun _ _ _ => H.madeOf) h hne
    rw [hv] at hfold
    exact hfold

variable {fuel : Nat} {env : Environment}
  (hev : ∀ e env w, H.env w env → (evaluation hosted fuel e env).Keeps hosted H H.Returns w)

include hev

theorem value (henv : H.env w env) (e : Expr) :
    (Prod.fst <$> evaluation hosted fuel e env).Keeps hosted H H.value w := by
  rw [map_eq_pure_bind]
  exact (hev e env w henv).bind fun _ _ _ hr => hr.1

theorem values (henv : H.env w env) (operands : List Expr) :
    (values (evaluation hosted fuel) env operands).Keeps hosted H
      (fun w vs => ∀ v ∈ vs, H.value w v) w :=
  mapM (R := H.value) H.mono (fun e _ hle => value hev (H.env_mono henv hle) e) operands

theorem target (henv : H.env w env) (callee : Expr) :
    (target (evaluation hosted fuel) env callee).Keeps hosted H H.value w := by
  unfold Script.target
  split
  · exact lookup henv _
  · exact value hev henv callee

theorem call (henv : H.env w env) (callee : Expr) (arguments : List Expr) {target : Value}
    (htarget : H.value w target) :
    (call (evaluation hosted fuel) env callee arguments target).Keeps hosted H H.Returns w := by
  cases target with
  | closure ref inputs body =>
    refine (values hev henv arguments).bind fun w₁ args h₁ hargs =>
      ⟨⟨fuel, inputs, body, _, fun _ => rfl⟩,
        ⟨H.closure_iff.1 (H.mono htarget h₁), hargs⟩, fun w₂ h₂ scope hscope => ?_⟩
    have hinputs : H.env w₂ (scope.extendMany (bindInputs inputs args)) :=
      Environment.Binds.bindInputs hscope (fun v hv => H.mono (hargs v hv) h₂)
        (H.leaf rfl rfl) inputs
    refine (hev body _ w₂ hinputs).bind fun w₃ r h₃ hr =>
      ⟨trivial, trivial, fun w₄ h₄ _ _ => ⟨H.mono hr.1 h₄, ?_⟩⟩
    exact H.env_mono henv (H.trans h₁ (H.trans h₂ (H.trans h₃ h₄)))
  | _ => exact trivial

theorem effect (henv : H.env w env) (name : String) (args : List (Value × Arg))
    (bind : Option String) (continuation : Option Expr) :
    (effect (evaluation hosted fuel) env name args bind continuation).Keeps
      hosted H H.Returns w := by
  have hargument : ∀ entry w', H.le w w' →
      (argument (evaluation hosted fuel) env entry).Keeps hosted H (fun _ _ => True) w' := by
    rintro ⟨key, arg⟩ w' hle
    cases arg with
    | literal v => exact trivial
    | expr e => exact (hev e env w' (H.env_mono henv hle)).bind fun _ _ _ _ => trivial
  refine (mapM (fun _ _ => trivial) hargument args).bind fun w₁ values h₁ _ =>
    ⟨trivial, trivial, fun w₂ h₂ v hv => ?_⟩
  have hbefore := H.env_mono henv (H.trans h₁ h₂)
  have hafter : H.env w₂ (env.bindAnswer bind v) :=
    Environment.bindAnswer_cases v bind hbefore fun key _ => hbefore.extend key hv
  cases continuation with
  | none => exact ⟨hv, hafter⟩
  | some e => exact hev e _ w₂ hafter

end Script.Keeps

theorem evaluation_keeps (hosted : Bool) (H : Holding W) (fuel : Nat) (e : Expr) (env : Environment)
    (w : W) (henv : H.env w env) :
    (evaluation hosted fuel e env).Keeps hosted H H.Returns w := by
  induction fuel generalizing e env w with
  | zero => exact trivial
  | succ fuel ih =>
    cases e with
    | number n => exact ⟨H.leaf (by cases n <;> rfl) (by cases n <;> rfl), henv⟩
    | string s => exact ⟨H.leaf rfl rfl, henv⟩
    | boolean b => exact ⟨H.leaf rfl rfl, henv⟩
    | «variable» key =>
      exact (Script.Keeps.lookup henv key).bind fun _ _ hle hv => ⟨hv, H.env_mono henv hle⟩
    | definition key value =>
      refine (ih value env w henv).bind fun w₁ r h₁ hr => ?_
      have hextended : H.env w₁ (env.extend key r.1) := (H.env_mono henv h₁).extend key hr.1
      exact ⟨⟨env, rfl⟩, ⟨hr.1, hextended⟩, fun w₂ h₂ _ _ =>
        ⟨H.leaf rfl rfl, H.env_mono hextended h₂⟩⟩
    | procedure inputs body =>
      exact ⟨⟨inputs, body, .done, fun _ => rfl⟩, henv, fun w₁ h₁ ref href =>
        ⟨H.closure_iff.2 href, H.env_mono henv h₁⟩⟩
    | arithmetic op operands =>
      refine (Script.Keeps.values ih henv operands).bind fun w₁ values h₁ hvalues => ?_
      exact (Script.Keeps.combine op hvalues).bind fun _ _ h₂ hv =>
        ⟨hv, H.env_mono henv (H.trans h₁ h₂)⟩
    | comparison op operands =>
      refine (Script.Keeps.values ih henv operands).bind fun w₁ values h₁ _ => ?_
      unfold Script.compare
      cases op.chain values with
      | ok b => exact ⟨H.leaf rfl rfl, H.env_mono henv h₁⟩
      | error failure => exact trivial
    | conditional condition onTrue onFalse =>
      exact (ih condition env w henv).bind fun w₁ _ h₁ _ =>
        ⟨trivial, trivial, fun w₂ h₂ _ _ => ih _ env w₂ (H.env_mono henv (H.trans h₁ h₂))⟩
    | call callee arguments =>
      exact (Script.Keeps.target ih henv callee).bind fun _ _ hle hv =>
        Script.Keeps.call ih (H.env_mono henv hle) callee arguments hv
    | effect name args bind next =>
      cases hosted with
      | false => exact trivial
      | true => exact Script.Keeps.effect ih henv name args bind next
    | block items => exact trivial

theorem evaluations_keeps (hosted : Bool) (H : Holding W) (fuel : Nat) (es : List Expr)
    {env : Environment} {w : W} (henv : H.env w env) :
    (evaluations hosted fuel es env).Keeps hosted H H.Ends w := by
  induction es generalizing env w with
  | nil => exact ⟨fun _ hv => absurd hv List.not_mem_nil, henv⟩
  | cons e rest ih =>
    refine (evaluation_keeps hosted H fuel e env w henv).bind fun w₁ r h₁ hr => ?_
    refine (ih hr.2).bind fun w₂ rs h₂ hrs => ?_
    exact ⟨List.forall_mem_cons.2 ⟨H.mono hr.1 h₂, hrs.1⟩, hrs.2⟩

theorem evaluations_regular (hosted : Bool) (fuel : Nat) (es : List Expr) (env : Environment) :
    (evaluations hosted fuel es env).Regular hosted := by
  let H : Holding Unit := ⟨fun _ _ => True, fun _ _ => True, fun _ _ => True, by simp, by simp,
    by simp, by simp, by simp, by simp⟩
  have hregular : ∀ script : Script (List Value × Environment), script.Keeps hosted H H.Ends () →
      script.Regular hosted := by
    intro script h
    induction script with
    | done a => exact trivial
    | stop cause => exact trivial
    | step s next ih =>
      refine ⟨h.1, fun r => ih r (h.2.2 () trivial r ?_)⟩
      cases s with
      | enter => exact fun _ _ _ => trivial
      | _ => exact trivial
  exact hregular _ (evaluations_keeps hosted H fuel es fun _ _ _ => trivial)

theorem Course.regular {hosted : Bool} {c c' : RunState σ α} {steps : List Step}
    (h : Course handler c steps c') (hc : c.script.Regular hosted) : c'.script.Regular hosted := by
  induction h with
  | refl => exact hc
  | step _ _ ih => exact ih (hc.2 _)
  | refuse _ => exact trivial

/-! ## Calls after a definition -/

/-- A call goes on with a body in the scope of the closure, in which all names but the inputs have
the values that they have in the scope. -/
theorem Script.Regular.enter {ref : ScopeRef} {frame : Frame}
    {next : Environment → Script α} {m : Machine σ}
    (h : (step (.enter ref frame) next).Regular handler.isSome) :
    ∃ fuel inputs body rest,
      Course handler ⟨step (.enter ref frame) next, m⟩ [.enter ref frame]
        ⟨(evaluation handler.isSome fuel body
            ((m.scope ref).extendMany (bindInputs inputs frame.args))).bind rest,
          { m with calls := m.calls ++ [frame] }⟩ ∧
      ∀ name ∉ inputs, ((m.scope ref).extendMany (bindInputs inputs frame.args)).lookup name =
        (m.scope ref).lookup name := by
  obtain ⟨fuel, inputs, body, rest, hnext⟩ := h.1
  refine ⟨fuel, inputs, body, rest, ?_, fun name hname => ?_⟩
  · rw [← hnext]
    exact .step (Step.run_enter ref frame m) (.refl _)
  · exact Environment.lookup_extendMany _ (by rwa [bindInputs_names])

/-- In every run of programs, once a definition has bound a closure, the scope of the closure is the
environment of that definition, in which the closure has its name, until a definition binds the same
closure again; then it is the environment of the latest such definition. A call of the closure looks
up all names but the inputs there. -/
theorem scope_of_latest_binding {fuel : Nat} {es : List Expr} {env : Environment}
    {m₀ m : Machine σ} {key : String} {ref : ScopeRef} {inputs : List String} {body : Expr}
    {defined : Environment} {next : Unit → Script (List Value × Environment)}
    {earlier later : List Step} {c : RunState σ (List Value × Environment)}
    (hdefinition : Course handler ⟨evaluations handler.isSome fuel es env, m₀⟩ earlier
      ⟨.step (.define key (.closure ref inputs body) defined) next, m⟩)
    (href : ref < m.scopes.size)
    (hlater : Course handler ⟨.step (.define key (.closure ref inputs body) defined) next, m⟩
      (.define key (.closure ref inputs body) defined :: later) c) :
    (evalAll handler fuel es env).run.run m₀ = (c.script.run handler).run.run c.machine ∧
    defined.lookup key = .ok (.closure ref inputs body) ∧
    c.machine.scope ref = (given ref later).getLastD defined ∧
    ∀ frame next', c.script = .step (.enter ref frame) next' →
      ∃ fuel' inputs' body' rest,
        Course handler c [.enter ref frame]
          ⟨(evaluation handler.isSome fuel' body' (((given ref later).getLastD defined).extendMany
              (bindInputs inputs' frame.args))).bind rest,
            { c.machine with calls := c.machine.calls ++ [frame] }⟩ ∧
        ∀ name ∉ inputs', (((given ref later).getLastD defined).extendMany
            (bindInputs inputs' frame.args)).lookup name =
          ((given ref later).getLastD defined).lookup name := by
  have hregular := hdefinition.regular (evaluations_regular handler.isSome fuel es env)
  have hscope : c.machine.scope ref = (given ref later).getLastD defined := by
    rw [hlater.scope_eq href, given_cons, Step.gives?, if_pos rfl]
    rfl
  refine ⟨?_, ?_, hscope, fun frame next' hscript => ?_⟩
  · rw [← evaluations_run]
    exact (hdefinition.trans hlater).run_eq
  · obtain ⟨before, rfl⟩ := hregular.1
    exact before.lookup_extend_closure key ref inputs body
  · have hc := hlater.regular hregular
    obtain ⟨script, machine⟩ := c
    obtain rfl : script = _ := hscript
    rw [← hscope]
    exact hc.enter

/-- Gives `f` a procedure that reads `x`, then `x` another value, and then `f` another name. -/
def renamedReader : List Expr :=
  [.definition "x" (.number (.int 1)), .definition "f" (.procedure [] (.variable "x")),
    .definition "x" (.number (.int 2)), .definition "g" (.variable "f"), .call (.variable "f") []]

/-- A machine without a host that has made these scopes. -/
def hostless (scopes : Array Environment) : Machine Unit := ⟨scopes, [], [], false, "", ()⟩

/-- The procedure reads the first `x` where it is bound to `f`, and the second where `f` is
called. -/
theorem scope_of_latest_binding_renamed :
    let reader : Value := .closure 0 [] (.variable "x")
    let made : Environment := ⟨[(.str "x", .int 1)]⟩
    let defined : Environment := ⟨[(.str "x", .int 1), (.str "f", reader)]⟩
    let changed : Environment := ⟨[(.str "x", .int 2), (.str "f", reader)]⟩
    let renamed : Environment := ⟨[(.str "x", .int 2), (.str "f", reader), (.str "g", reader)]⟩
    ∃ next next' called,
      Course none ⟨evaluations false 3 renamedReader .empty, hostless #[]⟩
        [.define "x" (.int 1) made, .close made]
        ⟨.step (.define "f" reader defined) next, hostless #[made]⟩ ∧
      Course none ⟨.step (.define "f" reader defined) next, hostless #[made]⟩
        [.define "f" reader defined, .define "x" (.int 2) changed, .define "g" reader renamed]
        ⟨.step (.enter 0 ⟨"f", []⟩) next', called⟩ ∧
      called.scope 0 = renamed ∧
      defined.lookup "x" = .ok (.int 1) ∧ renamed.lookup "x" = .ok (.int 2) := by
  intro reader made defined changed renamed
  obtain ⟨next, next', hdefinition, hlater⟩ : ∃ next next',
      Course none ⟨evaluations false 3 renamedReader .empty, hostless #[]⟩
        [.define "x" (.int 1) made, .close made]
        ⟨.step (.define "f" reader defined) next, hostless #[made]⟩ ∧
      Course none ⟨.step (.define "f" reader defined) next, hostless #[made]⟩
        [.define "f" reader defined, .define "x" (.int 2) changed, .define "g" reader renamed]
        ⟨.step (.enter 0 ⟨"f", []⟩) next', hostless #[renamed]⟩ :=
    ⟨_, _, .step rfl (.step rfl (.refl _)), .step rfl (.step rfl (.step rfl (.refl _)))⟩
  have hscope := (scope_of_latest_binding hdefinition (by decide) hlater).2.2.1
  exact ⟨next, next', hostless #[renamed], hdefinition, hlater, hscope, rfl, rfl⟩

end TreeScript
