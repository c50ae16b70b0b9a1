import Mathlib
import TreeScript.Proofs.CapturedScopes
import TreeScript.Proofs.Reachability

/-!
# Bindings that are not used

A program that does not mention a name is not affected by a binding of it. This needs more than the
program: the procedures that it can call must not mention the name either, and those are all that
can be reached from its environment, through the scopes of closures too. An effect could have the
host answer with any procedure, so programs with effects are left out.

The main statement `unused_binding` compares the evaluation of a program in an environment with that
in the environment with one more binding. The two runs go in lockstep (`Run.Lockstep`): at every
point they have the same values, closures included, and their environments and the scopes of their
closures bind the same names in the same order to the same values, but for the added name
(`Environment.AgreeBut`, `Machine.AgreeBut`). What is evaluated next is therefore the same. That it
does not mention the name is known as long as what can be reached in the first run does not; the
second run may reach more, through the added value, but never looks at it.
-/

namespace TreeScript

mutual

/-- Whether a program is free of effects and does not mention a name, be it as a variable, as an
input or as the name of a definition. -/
def Expr.pureWithout (x : String) : Expr → Bool
  | .variable key => key != x
  | .arithmetic _ operands => allPureWithout x operands
  | .comparison _ operands => allPureWithout x operands
  | .conditional condition onTrue onFalse =>
    Expr.pureWithout x condition && Expr.pureWithout x onTrue && Expr.pureWithout x onFalse
  | .procedure inputs body => !inputs.contains x && Expr.pureWithout x body
  | .call callee arguments => Expr.pureWithout x callee && allPureWithout x arguments
  | .definition key value => key != x && Expr.pureWithout x value
  | .effect .. => false
  | .block items => allPureWithout x items
  | _ => true
termination_by structural e => e

/-- Whether all programs of a list are so. -/
def allPureWithout (x : String) : List Expr → Bool
  | [] => true
  | e :: rest => Expr.pureWithout x e && allPureWithout x rest
termination_by structural es => es

end

theorem allPureWithout_iff {x : String} {es : List Expr} :
    allPureWithout x es = true ↔ ∀ e ∈ es, e.pureWithout x = true := by
  induction es with
  | nil => simp [allPureWithout]
  | cons e rest ih => simp [allPureWithout, ih]

/-- A procedure with these inputs and this body is free of effects and does not mention a name. -/
def ProcedureWithout (x : String) (inputs : List String) (body : Expr) : Prop :=
  (Expr.procedure inputs body).pureWithout x = true

theorem ProcedureWithout.body {x : String} {inputs : List String} {body : Expr}
    (h : ProcedureWithout x inputs body) : body.pureWithout x = true := by
  rw [ProcedureWithout, Expr.pureWithout, Bool.and_eq_true] at h
  exact h.2

variable {σ α β : Type} {x : String}

/-! ## Environments that agree but for a name -/

namespace Bindings

theorem remove_cons (key k v : Value) (rest : Bindings) :
    remove ((k, v) :: rest) key =
      if Value.alike key k then remove rest key else (k, v) :: remove rest key := by
  unfold remove
  rw [List.filter_cons]
  cases Value.alike key k <;> rfl

theorem get?_remove (bs : Bindings) {name : String} (hname : name ≠ x) :
    (bs.remove (.str x)).get? name = bs.get? name := by
  induction bs with
  | nil => rfl
  | cons entry rest ih =>
    obtain ⟨k, v⟩ := entry
    rw [remove_cons, get?_cons]
    by_cases hk : Value.alike (.str x) k = true
    · obtain rfl := (Value.alike_str_iff x k).1 hk
      rw [if_pos hk, ih, Value.alike_str, if_neg (by simpa using hname)]
    · rw [if_neg hk, get?_cons, ih]

theorem remove_eq_self {bs : Bindings} (h : bs.get? x = none) : bs.remove (.str x) = bs := by
  induction bs with
  | nil => rfl
  | cons entry rest ih =>
    obtain ⟨k, v⟩ := entry
    rw [get?_cons] at h
    rw [remove_cons]
    split at h
    · cases h
    · rename_i hk
      rw [if_neg hk, ih h]

theorem remove_put_self (bs : Bindings) (v : Value) :
    (bs.put (.str x) v).remove (.str x) = bs.remove (.str x) := by
  induction bs with
  | nil => rw [put, remove_cons, if_pos ((Value.alike_str_iff x _).2 rfl)]
  | cons entry rest ih =>
    obtain ⟨k, w⟩ := entry
    rw [put]
    split
    · rename_i hk
      rw [remove_cons, remove_cons, if_pos hk, if_pos hk]
    · rename_i hk
      rw [remove_cons, remove_cons, if_neg hk, if_neg hk, ih]

theorem remove_put (bs : Bindings) {key : String} (hkey : key ≠ x) (v : Value) :
    (bs.put (.str key) v).remove (.str x) = (bs.remove (.str x)).put (.str key) v := by
  have hother : ¬ Value.alike (.str x) (.str key) = true := by
    simpa using Ne.symm hkey
  induction bs with
  | nil => rw [put, remove_cons, if_neg hother]; rfl
  | cons entry rest ih =>
    obtain ⟨k, w⟩ := entry
    rw [put]
    by_cases hk : Value.alike (.str key) k = true
    · obtain rfl := (Value.alike_str_iff key k).1 hk
      rw [if_pos hk, remove_cons, remove_cons, if_neg hother, if_neg hother, put, if_pos hk]
    · rw [if_neg hk, remove_cons, remove_cons, ih]
      by_cases hx : Value.alike (.str x) k = true
      · rw [if_pos hx, if_pos hx]
      · rw [if_neg hx, if_neg hx, put, if_neg hk]

end Bindings

namespace Environment

/-- The environments bind the same names in the same order to the same values, but for a name. -/
def AgreeBut (x : String) (env env' : Environment) : Prop :=
  env.bindings.remove (.str x) = env'.bindings.remove (.str x)

namespace AgreeBut

variable {env env' : Environment}

theorem find?_eq (h : env.AgreeBut x env') {name : String} (hname : name ≠ x) :
    env.find? (.str name) = env'.find? (.str name) := by
  have hget := congrArg (Bindings.get? · name) h
  simp only [Bindings.get?_remove _ hname] at hget
  exact hget

theorem lookup_eq (h : env.AgreeBut x env') {name : String} (hname : name ≠ x) :
    env.lookup name = env'.lookup name :=
  lookup_congr (h.find?_eq hname)

theorem extend (h : env.AgreeBut x env') (key : String) (v : Value) :
    (env.extend key v).AgreeBut x (env'.extend key v) := by
  unfold AgreeBut Environment.extend
  by_cases hkey : key = x
  · rw [hkey, Bindings.remove_put_self, Bindings.remove_put_self]
    exact h
  · rw [Bindings.remove_put _ hkey, Bindings.remove_put _ hkey, h]

theorem extendMany (h : env.AgreeBut x env') (pairs : List (String × Value)) :
    (env.extendMany pairs).AgreeBut x (env'.extendMany pairs) := by
  induction pairs generalizing env env' with
  | nil => exact h
  | cons pair rest ih => exact ih (h.extend pair.1 pair.2)

end AgreeBut

end Environment

/-- The machines are the same, but for a name that the scopes of closures bind. -/
structure Machine.AgreeBut (x : String) (m m' : Machine σ) : Prop where
  size : m'.scopes.size = m.scopes.size
  scope : ∀ ref, (m.scope ref).AgreeBut x (m'.scope ref)
  rest : m' = { m with scopes := m'.scopes }

namespace Machine.AgreeBut

variable {m m' : Machine σ} {env env' : Environment}

theorem refl (m : Machine σ) : m.AgreeBut x m := ⟨rfl, fun _ => rfl, rfl⟩

theorem push (h : m.AgreeBut x m') (henv : env.AgreeBut x env') :
    AgreeBut x { m with scopes := m.scopes.push env }
      { m' with scopes := m'.scopes.push env' } where
  size := by
    show (m'.scopes.push env').size = (m.scopes.push env).size
    rw [Array.size_push, Array.size_push, h.size]
  scope := by
    intro ref
    show ((m.scopes.push env).getD ref .empty).AgreeBut x ((m'.scopes.push env').getD ref .empty)
    rw [getD_push, getD_push, h.size]
    split
    · exact henv
    · exact h.scope ref
  rest := by
    have hrest := h.rest
    cases m
    cases m'
    cases hrest
    rfl

theorem adopt (h : m.AgreeBut x m') (v : Value) (henv : env.AgreeBut x env') :
    AgreeBut x { m with scopes := adopted v env m.scopes }
      { m' with scopes := adopted v env' m'.scopes } := by
  cases v with
  | closure ref inputs body =>
    refine ⟨?_, fun r => ?_, ?_⟩
    · show (m'.scopes.setIfInBounds ref env').size = (m.scopes.setIfInBounds ref env).size
      rw [Array.size_setIfInBounds, Array.size_setIfInBounds, h.size]
    · show ((m.scopes.setIfInBounds ref env).getD r .empty).AgreeBut x
        ((m'.scopes.setIfInBounds ref env').getD r .empty)
      rcases Nat.lt_or_ge ref m.scopes.size with hlt | hge
      · rw [getD_setIfInBounds hlt, getD_setIfInBounds (h.size ▸ hlt)]
        split
        · exact henv
        · exact h.scope r
      · rw [Array.setIfInBounds_eq_of_size_le hge, Array.setIfInBounds_eq_of_size_le (h.size ▸ hge)]
        exact h.scope r
    · have hrest := h.rest
      cases m
      cases m'
      cases hrest
      rfl
  | _ => exact h

/-- What does not touch the scopes does the same on both machines. -/
theorem update {m m' : Machine σ} (h : m.AgreeBut x m') {f : Machine σ → Machine σ}
    (hf : ∀ m scopes, f { m with scopes := scopes } = { f m with scopes := scopes })
    (hscopes : (f m).scopes = m.scopes) : (f m).AgreeBut x (f m') := by
  have hfm : f m' = { f m with scopes := m'.scopes } := by
    rw [h.rest, hf]
  have hscopes' : (f m').scopes = m'.scopes := by rw [hfm]
  refine ⟨?_, fun ref => ?_, ?_⟩
  · rw [hscopes, hscopes', h.size]
  · unfold Machine.scope
    rw [hscopes, hscopes']
    exact h.scope ref
  · rw [hscopes', hfm]

end Machine.AgreeBut

/-! ## Runs in lockstep -/

/-- Two runs from machines that agree but for a name end in the same way: on machines that agree but
for it, stopped for the same reason, or with results that `Q` relates. The first maintains that
closures do not mention the name. -/
def Run.Lockstep (x : String) (Q : Machine σ → α → α → Prop) (c c' : Run σ α)
    (m m' : Machine σ) : Prop :=
  match c.run.run m, c'.run.run m' with
  | (.ok a, n), (.ok a', n') =>
    Machine.Maintains (ProcedureWithout x) m n ∧ n.AgreeBut x n' ∧ Q n a a'
  | (.error stop, n), (.error stop', n') => stop' = stop ∧ n.AgreeBut x n'
  | _, _ => False

namespace Run.Lockstep

variable {Q : Machine σ → α → α → Prop} {R : Machine σ → β → β → Prop} {m m' : Machine σ}

theorem pure {a a' : α} (hm : m.AgreeBut x m') (h : Q m a a') :
    Lockstep x Q (Pure.pure a) (Pure.pure a') m m' :=
  ⟨.refl m, hm, h⟩

theorem throw (hm : m.AgreeBut x m') (stop : Stop) :
    Lockstep x Q (MonadExcept.throw stop) (MonadExcept.throw stop) m m' :=
  ⟨rfl, hm⟩

theorem ofResult (hm : m.AgreeBut x m') {result : Result α}
    (h : ∀ a, result = .ok a → Q m a a) :
    Lockstep x Q (Run.ofResult result) (Run.ofResult result) m m' := by
  cases result with
  | ok a => exact pure hm (h a rfl)
  | error failure => exact throw hm _

theorem bind {c c' : Run σ α} {f f' : α → Run σ β} (h : Lockstep x Q c c' m m')
    (hf : ∀ n n' a a', Machine.Maintains (ProcedureWithout x) m n → n.AgreeBut x n' → Q n a a' →
      Lockstep x R (f a) (f' a') n n') :
    Lockstep x R (c >>= f) (c' >>= f') m m' := by
  unfold Lockstep at h ⊢
  rw [run_bind, run_bind]
  revert h
  rcases c.run.run m with ⟨stop | a, n⟩ <;> rcases c'.run.run m' with ⟨stop' | a', n'⟩
  · exact id
  · exact False.elim
  · exact False.elim
  · rintro ⟨hkeep, hagree, hQ⟩
    have hnext := hf n n' a a' hkeep hagree hQ
    unfold Lockstep at hnext
    revert hnext
    dsimp only
    rcases (f a).run.run n with ⟨stop | b, k⟩ <;> rcases (f' a').run.run n' with ⟨stop' | b', k'⟩
    · exact id
    · exact id
    · exact id
    · exact fun hnext => ⟨hkeep.trans hnext.1, hnext.2⟩

/-- What is done to the machine without touching the scopes. -/
theorem onRest (hm : m.AgreeBut x m') {f : Machine σ → Machine σ}
    (hf : ∀ m scopes, f { m with scopes := scopes } = { f m with scopes := scopes })
    (hscopes : (f m).scopes = m.scopes) :
    Lockstep x (fun _ _ _ => True) (modify f : Run σ Unit) (modify f) m m' :=
  ⟨.of_scopes_eq hscopes, hm.update hf hscopes, trivial⟩

theorem tell (hm : m.AgreeBut x m') (line : String) :
    Lockstep x (fun _ _ _ => True) (Run.tell line) (Run.tell line) m m' := by
  refine onRest hm (fun m scopes => ?_) ?_
  · dsimp only
    split <;> rfl
  · split <;> rfl

theorem enter (hm : m.AgreeBut x m') (frame : Frame) :
    Lockstep x (fun _ _ _ => True) (Run.enter frame) (Run.enter frame) m m' :=
  onRest hm (fun _ _ => rfl) rfl

theorem leave (hm : m.AgreeBut x m') :
    Lockstep x (fun _ _ _ => True) Run.leave Run.leave m m' :=
  onRest hm (fun _ _ => rfl) rfl

/-- Environments of the two runs: they agree but for the name, and what can be reached from the
first does not mention it. -/
def Envs (x : String) (n : Machine σ) (env env' : Environment) : Prop :=
  env.AgreeBut x env' ∧ n.Bears (ProcedureWithout x) env.toValue

/-- Values of the two runs: they are the same, and what can be reached from them in the first does
not mention the name. -/
def Values (x : String) (n : Machine σ) (v v' : Value) : Prop :=
  v' = v ∧ n.Bears (ProcedureWithout x) v

theorem Envs.mono {env env' : Environment} {n : Machine σ} (h : Envs x m env env')
    (hkeep : Machine.Maintains (ProcedureWithout x) m n) : Envs x n env env' :=
  ⟨h.1, hkeep _ h.2⟩

theorem Values.mono {v v' : Value} {n : Machine σ} (h : Values x m v v')
    (hkeep : Machine.Maintains (ProcedureWithout x) m n) : Values x n v v' :=
  ⟨h.1, hkeep _ h.2⟩

theorem scopeOf (hm : m.AgreeBut x m') {ref : ScopeRef} {inputs : List String} {body : Expr}
    (h : m.Bears (ProcedureWithout x) (.closure ref inputs body)) :
    Lockstep x (Envs x) (Run.scopeOf ref) (Run.scopeOf ref) m m' :=
  ⟨.refl m, hm, hm.scope ref, h.scope⟩

theorem lookup (hm : m.AgreeBut x m') {env env' : Environment} (henv : Envs x m env env')
    {key : String} (hkey : key ≠ x) :
    Lockstep x (Values x) (Run.ofResult (env.lookup key))
      (Run.ofResult (env'.lookup key)) m m' := by
  rw [← henv.1.lookup_eq hkey]
  exact ofResult hm fun v hv => ⟨rfl, henv.2.lookup hv⟩

theorem newScope (hm : m.AgreeBut x m') {env env' : Environment} (henv : Envs x m env env')
    {inputs : List String} {body : Expr} (h : ProcedureWithout x inputs body) :
    Lockstep x (fun n ref ref' => Values x n (.closure ref inputs body) (.closure ref' inputs body))
      (Run.newScope env) (Run.newScope env') m m' := by
  have hkeep : Machine.Maintains (ProcedureWithout x) m { m with scopes := m.scopes.push env } :=
    .push henv.2 rfl
  refine ⟨hkeep, hm.push henv.1, ?_, .closure ?_ h⟩
  · show Value.closure m'.scopes.size inputs body = .closure m.scopes.size inputs body
    rw [hm.size]
  · show Machine.Bears _ _ ((m.scopes.push env).getD m.scopes.size .empty).toValue
    rw [getD_push, if_pos rfl]
    exact hkeep _ henv.2

theorem adoptScope (hm : m.AgreeBut x m') (v : Value) {env env' : Environment}
    (henv : Envs x m env env') :
    Lockstep x (fun _ _ _ => True) (adoptScope v env) (adoptScope v env') m m' := by
  have hrun : ∀ (m : Machine σ) env, (TreeScript.adoptScope v env : Run σ Unit).run.run m =
      (.ok (), { m with scopes := adopted v env m.scopes }) := by
    intro m env
    cases v <;> rfl
  unfold Lockstep
  rw [hrun, hrun]
  exact ⟨.adopt v henv.2 rfl, hm.adopt v henv.1, trivial⟩

/-- The same values in order, where each item gives the same. -/
theorem mapM {γ : Type} {f f' : γ → Run σ Value} {items : List γ} (hm : m.AgreeBut x m')
    (hf : ∀ item ∈ items, ∀ n n', Machine.Maintains (ProcedureWithout x) m n → n.AgreeBut x n' →
      Lockstep x (Values x) (f item) (f' item) n n') :
    Lockstep x (fun n vs vs' => vs' = vs ∧ ∀ v ∈ vs, n.Bears (ProcedureWithout x) v)
      (items.mapM f) (items.mapM f') m m' := by
  induction items generalizing m m' with
  | nil => exact pure hm ⟨rfl, fun _ h => nomatch h⟩
  | cons item rest ih =>
    obtain ⟨hitem, hrest⟩ := List.forall_mem_cons.1 hf
    rw [List.mapM_cons, List.mapM_cons]
    refine (hitem m m' (.refl m) hm).bind fun n n' v v' hn hagree hv => ?_
    refine (ih hagree fun item hmem k k' hk hagree' =>
      hrest item hmem k k' (hn.trans hk) hagree').bind fun k k' vs vs' hk hagree' hvs => ?_
    obtain ⟨rfl, hvs⟩ := hvs
    obtain ⟨rfl, hv⟩ := hv.mono hk
    exact pure hagree' ⟨rfl, List.forall_mem_cons.2 ⟨hv, hvs⟩⟩

/-! ### The parts of an evaluation -/

/-- Results of the two runs of an evaluation. The first binds the name only if it was bound. -/
def Results (x : String) (env : Environment) (n : Machine σ) (r r' : Value × Environment) : Prop :=
  Values x n r.1 r'.1 ∧ Envs x n r.2 r'.2 ∧ r.2.find? (.str x) = env.find? (.str x)

/-- Evaluations with this much fuel go in lockstep. -/
def Evaluates (x : String) (handler : Option (Handler σ)) (fuel : Nat) : Prop :=
  ∀ e env env' (m m' : Machine σ), e.pureWithout x = true → m.AgreeBut x m' → Envs x m env env' →
    Lockstep x (Results x env) (eval handler fuel e env) (eval handler fuel e env') m m'

variable {handler : Option (Handler σ)} {fuel : Nat} {env env' : Environment}

theorem value (hev : Evaluates x handler fuel) (hm : m.AgreeBut x m') (henv : Envs x m env env')
    {e : Expr} (he : e.pureWithout x = true) :
    Lockstep x (Values x) (Prod.fst <$> eval handler fuel e env)
      (Prod.fst <$> eval handler fuel e env') m m' := by
  rw [map_eq_pure_bind, map_eq_pure_bind]
  exact (hev e env env' m m' he hm henv).bind fun _ _ _ _ _ hagree hr => pure hagree hr.1

theorem operands (hev : Evaluates x handler fuel) (hm : m.AgreeBut x m')
    (henv : Envs x m env env') {es : List Expr} (hes : allPureWithout x es = true) :
    Lockstep x (fun n vs vs' => vs' = vs ∧ ∀ v ∈ vs, n.Bears (ProcedureWithout x) v)
      (evalOperands handler fuel env es) (evalOperands handler fuel env' es) m m' :=
  mapM hm fun e he _ _ hn hagree =>
    value hev hagree (henv.mono hn) (allPureWithout_iff.1 hes e he)

theorem target (hev : Evaluates x handler fuel) (hm : m.AgreeBut x m') (henv : Envs x m env env')
    {callee : Expr} (h : callee.pureWithout x = true) :
    Lockstep x (Values x) (callTarget handler fuel env callee) (callTarget handler fuel env' callee)
      m m' := by
  cases callee with
  | «variable» key => exact lookup hm henv (by simpa [Expr.pureWithout] using h)
  | _ => exact value hev hm henv h

theorem call (hev : Evaluates x handler fuel) (hm : m.AgreeBut x m') (henv : Envs x m env env')
    (callee : Expr) {arguments : List Expr} (h : allPureWithout x arguments = true) {target : Value}
    (htarget : m.Bears (ProcedureWithout x) target) :
    Lockstep x (Results x env) (callOn handler fuel env callee arguments target)
      (callOn handler fuel env' callee arguments target) m m' := by
  cases target with
  | closure ref inputs body =>
    refine (operands hev hm henv h).bind fun n₁ n₁' args args' h₁ hm₁ hargs => ?_
    obtain ⟨rfl, hargs⟩ := hargs
    refine (scopeOf hm₁ (h₁ _ htarget)).bind fun n₂ n₂' scope scope' h₂ hm₂ hscope => ?_
    refine (enter hm₂ _).bind fun n₃ n₃' _ _ h₃ hm₃ _ => ?_
    have hscope₃ := hscope.mono h₃
    have hinputs : ∀ pair ∈ bindInputs inputs args', n₃.Bears (ProcedureWithout x) pair.2 :=
      .bindInputs (fun v hv => h₃ v (h₂ v (hargs v hv))) inputs
    have hlocal : Envs x n₃ (scope.extendMany (bindInputs inputs args'))
        (scope'.extendMany (bindInputs inputs args')) :=
      ⟨hscope₃.1.extendMany _, hscope₃.2.extendMany hinputs⟩
    refine (hev body _ _ n₃ n₃' htarget.procedure.body hm₃ hlocal).bind
      fun n₄ n₄' r r' h₄ hm₄ hr => ?_
    refine (leave hm₄).bind fun n₅ n₅' _ _ h₅ hm₅ _ => ?_
    exact pure hm₅ ⟨hr.1.mono h₅, henv.mono (h₁.trans (h₂.trans (h₃.trans (h₄.trans h₅)))), rfl⟩
  | _ => exact throw hm _

end Run.Lockstep

open Run (Lockstep) in
/-- A program that does not mention the name is evaluated in lockstep. The induction is on the fuel;
a call goes on with the body of a closure that can be reached from the environment. -/
theorem eval_lockstep (x : String) (handler : Option (Handler σ)) (fuel : Nat) :
    Lockstep.Evaluates x handler fuel := by
  induction fuel with
  | zero => exact fun e env env' m m' _ hm _ => Lockstep.throw hm _
  | succ fuel ih =>
    intro e env env' m m' he hm henv
    have hleaf : ∀ {v : Value}, v.isClosure = false → v.parts = [] →
        Lockstep.Values x m v v := fun hv hparts => ⟨rfl, .leaf hv hparts⟩
    cases e with
    | number n =>
      exact Lockstep.pure hm ⟨hleaf (by cases n <;> rfl) (by cases n <;> rfl), henv, rfl⟩
    | string s => exact Lockstep.pure hm ⟨hleaf rfl rfl, henv, rfl⟩
    | boolean b => exact Lockstep.pure hm ⟨hleaf rfl rfl, henv, rfl⟩
    | «variable» key =>
      -- the name itself is never looked up
      have hkey : key ≠ x := by simpa [Expr.pureWithout] using he
      exact (Lockstep.lookup hm henv hkey).bind fun n n' v v' hn hagree hv =>
        Lockstep.pure hagree ⟨hv, henv.mono hn, rfl⟩
    | definition key value =>
      rw [Expr.pureWithout, Bool.and_eq_true, bne_iff_ne] at he
      refine (ih value env env' m m' he.2 hm henv).bind fun n₁ n₁' r r' h₁ hm₁ hr => ?_
      obtain ⟨v, after⟩ := r
      obtain ⟨v', after'⟩ := r'
      obtain ⟨⟨rfl, hv⟩, -⟩ := hr
      have henv₁ := henv.mono h₁
      have hextended : Lockstep.Envs x n₁ (env.extend key v') (env'.extend key v') :=
        ⟨henv₁.1.extend key v', henv₁.2.extend key hv⟩
      refine (Lockstep.adoptScope hm₁ v' hextended).bind fun n₂ n₂' _ _ h₂ hm₂ _ => ?_
      refine (Lockstep.tell hm₂ _).bind fun n₃ n₃' _ _ h₃ hm₃ _ => ?_
      refine Lockstep.pure hm₃ ⟨⟨rfl, .leaf rfl rfl⟩, hextended.mono (h₂.trans h₃), ?_⟩
      -- a definition of another name does not bind this one
      exact (env.find?_extend key x v').trans (if_neg (Ne.symm he.1))
    | procedure inputs body =>
      exact (Lockstep.newScope hm henv he).bind fun n n' ref ref' hn hagree href =>
        Lockstep.pure hagree ⟨href, henv.mono hn, rfl⟩
    | arithmetic op operands =>
      rw [Expr.pureWithout] at he
      refine (Lockstep.operands ih hm henv he).bind fun n n' vs vs' hn hagree hvs => ?_
      obtain ⟨rfl, hvs⟩ := hvs
      refine (Lockstep.ofResult hagree fun v hv => ?_ :
        Lockstep x (Lockstep.Values x) _ _ n n').bind fun k k' v v' hk hagree' hv =>
          Lockstep.pure hagree' ⟨hv, henv.mono (hn.trans hk), rfl⟩
      have hne : vs' ≠ [] := by
        rintro rfl
        cases hv
      have hfold := op.fold_ofOperator (fun _ _ _ => Machine.Bears.madeOf) hvs hne
      rw [hv] at hfold
      exact ⟨rfl, hfold⟩
    | comparison op operands =>
      rw [Expr.pureWithout] at he
      refine (Lockstep.operands ih hm henv he).bind fun n n' vs vs' hn hagree hvs => ?_
      obtain ⟨rfl, hvs⟩ := hvs
      refine (Lockstep.ofResult hagree fun b hb => rfl :
        Lockstep x (fun _ b b' => b' = b) _ _ n n').bind fun k k' b b' hk hagree' hb => ?_
      exact Lockstep.pure hagree'
        ⟨⟨congrArg Value.bool hb, .leaf rfl rfl⟩, henv.mono (hn.trans hk), rfl⟩
    | conditional condition onTrue onFalse =>
      rw [Expr.pureWithout, Bool.and_eq_true, Bool.and_eq_true] at he
      refine (ih condition env env' m m' he.1.1 hm henv).bind fun n₁ n₁' r r' h₁ hm₁ hr => ?_
      obtain ⟨v, after⟩ := r
      obtain ⟨v', after'⟩ := r'
      obtain ⟨⟨rfl, -⟩, -⟩ := hr
      refine (Lockstep.tell hm₁ _).bind fun n₂ n₂' _ _ h₂ hm₂ _ => ?_
      refine ih _ env env' n₂ n₂' ?_ hm₂ (henv.mono (h₁.trans h₂))
      split
      · exact he.1.2
      · exact he.2
    | call callee arguments =>
      rw [Expr.pureWithout, Bool.and_eq_true] at he
      rw [eval_call, eval_call]
      refine (Lockstep.target ih hm henv he.1).bind fun n n' v v' hn hagree hv => ?_
      obtain ⟨rfl, hv⟩ := hv
      exact Lockstep.call ih hagree (henv.mono hn) callee he.2 hv
    -- `pureWithout` excludes effects
    | effect name args bind next => cases he
    | block items => exact Lockstep.throw hm _

/-- Two evaluations end in the same way: they stop for the same reason, or return the same value,
and the environments that they return are the same once a name is removed from the second. -/
def SameBut (x : String) : Except Stop (Value × Environment) →
    Except Stop (Value × Environment) → Prop
  | .ok (v, after), .ok (v', after') =>
    v' = v ∧ after'.bindings.remove (.str x) = after.bindings
  | .error stop, .error stop' => stop' = stop
  | _, _ => False

/-- Let a name not be bound in an environment, and not be mentioned in a program nor in a procedure
that can be reached from the environment, and let these be free of effects. Then the program is
evaluated in the same way if the name is bound to some value: with any fuel both evaluations run out
of it, or both fail in the same way, or both return the same. -/
theorem unused_binding (handler : Option (Handler σ)) {e : Expr} {env : Environment} {m : Machine σ}
    (he : e.pureWithout x = true) (hunbound : env.find? (.str x) = none)
    (hreached : m.Bears (ProcedureWithout x) env.toValue) (w : Value) (fuel : Nat) :
    SameBut x ((eval handler fuel e env).run.run m).1
      ((eval handler fuel e (env.extend x w)).run.run m).1 ∧
    ((eval handler fuel e env).run.run m).2.AgreeBut x
      ((eval handler fuel e (env.extend x w)).run.run m).2 := by
  have hextended : env.AgreeBut x (env.extend x w) := (Bindings.remove_put_self _ w).symm
  have hlock := eval_lockstep x handler fuel e env (env.extend x w) m m he (.refl m)
    ⟨hextended, hreached⟩
  unfold Run.Lockstep at hlock
  revert hlock
  rcases (eval handler fuel e env).run.run m with ⟨stop | ⟨v, after⟩, n⟩ <;>
    rcases (eval handler fuel e (env.extend x w)).run.run m with ⟨stop' | ⟨v', after'⟩, n'⟩
  · exact id
  · exact False.elim
  · exact False.elim
  · rintro ⟨-, hagree, hvalue, henvs, hname⟩
    refine ⟨⟨hvalue.1, ?_⟩, hagree⟩
    calc after'.bindings.remove (.str x) = after.bindings.remove (.str x) := henvs.1.symm
      _ = after.bindings := Bindings.remove_eq_self (hname.trans hunbound)

/-- The body of a procedure `f` that calls itself. -/
def callsItself : Expr :=
  .conditional (.variable "b") (.call (.variable "f") [.boolean false]) (.variable "b")

/-- Binds `f` to a procedure that calls itself. -/
def withSelfCall : Environment := ⟨[(.str "f", .closure 0 ["b"] callsItself)]⟩

/-- The closure `f` is in its own scope. The definition of a procedure that calls it, and a call
that fails, are the same with a name that neither mentions. -/
theorem unused_binding_cyclic :
    let m : Machine Unit := ⟨#[withSelfCall], [], [], false, "", ()⟩
    let w : Value := .closure 0 ["x"] (.variable "x")
    let define : Expr := .definition "g" (.call (.variable "f") [.boolean true])
    let fail : Expr := .call (.variable "f") []
    define.pureWithout "x" = true ∧ fail.pureWithout "x" = true ∧
    withSelfCall.find? (.str "x") = none ∧ m.Bears (ProcedureWithout "x") withSelfCall.toValue ∧
    ((eval none 7 define withSelfCall).run.run m).1 =
      .ok (.null, withSelfCall.extend "g" (.bool false)) ∧
    ((eval none 7 fail withSelfCall).run.run m).1 = .error (.failure (.undefinedVariable "b")) ∧
    SameBut "x" ((eval none 7 define withSelfCall).run.run m).1
      ((eval none 7 define (withSelfCall.extend "x" w)).run.run m).1 ∧
    SameBut "x" ((eval none 7 fail withSelfCall).run.run m).1
      ((eval none 7 fail (withSelfCall.extend "x" w)).run.run m).1 := by
  intro m w define fail
  have hdefine : define.pureWithout "x" = true := by decide
  have hfail : fail.pureWithout "x" = true := by decide
  have hunbound : withSelfCall.find? (.str "x") = none := by cbv
  have hreached : m.Bears (ProcedureWithout "x") withSelfCall.toValue := by
    refine .of_invariant (I := fun u => u = withSelfCall.toValue ∨ u = .str "f" ∨
      u = .closure 0 ["b"] callsItself) (.inl rfl) ?_ ?_
    · have hparts : ∀ u ∈ withSelfCall.toValue.parts, u = .str "f" ∨
          u = .closure 0 ["b"] callsItself := by
        intro u hu
        simpa [withSelfCall, Environment.toValue, Value.parts] using hu
      rintro u (rfl | rfl | rfl) w hw
      · exact .inr (hparts w hw)
      · cases hw
      · exact .inr (hparts w hw)
    · rintro ref inputs body (h | h | h)
      · cases h
      · cases h
      · cases h
        show (Expr.procedure ["b"] callsItself).pureWithout "x" = true
        decide
  refine ⟨hdefine, hfail, hunbound, hreached, by cbv, by cbv, ?_, ?_⟩
  · exact (unused_binding none hdefine hunbound hreached w 7).1
  · exact (unused_binding none hfail hunbound hreached w 7).1

end TreeScript
