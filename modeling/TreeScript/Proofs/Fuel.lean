import TreeScript.Proofs.Requests

/-!
# More fuel

The bound on the recursion decides only whether an evaluation finishes. `Script.Refines x y` says
that the scripts take the same steps, but that `y` may go on where `x` has run out of fuel. The
script of a program is refined by its script with more fuel (`evaluation_refines`), and a script
that does not run out of fuel ends as any refinement of it, having asked for the same
(`Script.Refines.run_eq`, `Script.Refines.asked_eq`).
-/

namespace TreeScript

variable {α β γ σ : Type}

namespace Script

/-- The second script goes on at most where the first has run out of fuel. -/
inductive Refines : Script α → Script α → Prop
  | unfinished {y : Script α} : Refines (.stop .outOfFuel) y
  | done {a : α} : Refines (.done a) (.done a)
  | stop {cause : Cause} : Refines (.stop cause) (.stop cause)
  | step {s : Step} {next next' : s.Reply → Script α} :
    (∀ r, Refines (next r) (next' r)) → Refines (.step s next) (.step s next')

namespace Refines

theorem refl (x : Script α) : x.Refines x := by
  induction x with
  | done a => exact .done
  | stop cause => exact .stop
  | step s next ih => exact .step ih

theorem bind {x y : Script α} {f g : α → Script β} (h : x.Refines y)
    (hfg : ∀ a, (f a).Refines (g a)) : (x >>= f).Refines (y >>= g) := by
  induction h with
  | unfinished => exact .unfinished
  | done => exact hfg _
  | stop => exact .stop
  | step _ ih => exact .step ih

theorem map {x y : Script α} (f : α → β) (h : x.Refines y) : (f <$> x).Refines (f <$> y) := by
  rw [map_eq_pure_bind, map_eq_pure_bind]
  exact h.bind fun a => refl _

theorem mapM {f g : γ → Script β} (hfg : ∀ c, (f c).Refines (g c)) (items : List γ) :
    (items.mapM f).Refines (items.mapM g) := by
  induction items with
  | nil => exact refl _
  | cons item rest ih =>
    rw [List.mapM_cons, List.mapM_cons]
    exact (hfg item).bind fun b => ih.bind fun bs => refl _

/-! ### The parts of an evaluation -/

variable {ev ev' : Evaluator}

theorem values (hev : ∀ e env, (ev e env).Refines (ev' e env)) (env : Environment)
    (operands : List Expr) :
    (Script.values ev env operands).Refines (Script.values ev' env operands) :=
  mapM (fun operand => (hev operand env).map Prod.fst) operands

theorem target (hev : ∀ e env, (ev e env).Refines (ev' e env)) (env : Environment)
    (callee : Expr) : (Script.target ev env callee).Refines (Script.target ev' env callee) := by
  cases callee with
  | «variable» key => exact refl _
  | _ => exact (hev _ env).map Prod.fst

theorem call (hev : ∀ e env, (ev e env).Refines (ev' e env)) (env : Environment) (callee : Expr)
    (arguments : List Expr) (target : Value) :
    (Script.call ev env callee arguments target).Refines
      (Script.call ev' env callee arguments target) := by
  cases target with
  | closure ref inputs body =>
    exact (values hev env arguments).bind fun args => (refl _).bind fun scope =>
      (hev body _).bind fun r => refl _
  | _ => exact refl _

theorem argument (hev : ∀ e env, (ev e env).Refines (ev' e env)) (env : Environment)
    (entry : Value × Arg) :
    (Script.argument ev env entry).Refines (Script.argument ev' env entry) := by
  obtain ⟨key, arg⟩ := entry
  cases arg with
  | literal v => exact refl _
  | expr e => exact (hev e env).bind fun r => refl _

theorem effect (hev : ∀ e env, (ev e env).Refines (ev' e env)) (env : Environment) (name : String)
    (args : List (Value × Arg)) (bind : Option String) (continuation : Option Expr) :
    (Script.effect ev env name args bind continuation).Refines
      (Script.effect ev' env name args bind continuation) := by
  refine (mapM (argument hev env) args).bind fun values => (refl _).bind fun v => ?_
  cases continuation with
  | none => exact refl _
  | some e => exact hev e _

end Refines

end Script

/-- More fuel refines the script of a program. The induction is on the smaller fuel: without any,
the script has run out of it. -/
theorem evaluation_refines (hosted : Bool) {fuel fuel' : Nat} (hle : fuel ≤ fuel') (e : Expr)
    (env : Environment) :
    (evaluation hosted fuel e env).Refines (evaluation hosted fuel' e env) := by
  induction fuel generalizing fuel' e env with
  | zero => exact .unfinished
  | succ fuel ih =>
    obtain ⟨k, rfl⟩ : ∃ k, fuel' = k + 1 := ⟨fuel' - 1, by omega⟩
    have hev : ∀ e env, (evaluation hosted fuel e env).Refines (evaluation hosted k e env) :=
      ih (Nat.le_of_succ_le_succ hle)
    cases e with
    | definition key value => exact (hev value env).bind fun r => .refl _
    | arithmetic op operands => exact (Script.Refines.values hev env operands).bind fun _ => .refl _
    | comparison op operands => exact (Script.Refines.values hev env operands).bind fun _ => .refl _
    | conditional condition onTrue onFalse =>
      exact (hev condition env).bind fun r => (Script.Refines.refl _).bind fun _ => hev _ env
    | call callee arguments =>
      exact (Script.Refines.target hev env callee).bind (.call hev env callee arguments)
    | effect name args bind next =>
      cases hosted with
      | false => exact .refl _
      | true => exact .effect hev env name args bind next
    | _ => exact .refl _

/-- So it is for programs one after the other. -/
theorem evaluations_refines (hosted : Bool) {fuel fuel' : Nat} (hle : fuel ≤ fuel') (es : List Expr)
    (env : Environment) :
    (evaluations hosted fuel es env).Refines (evaluations hosted fuel' es env) := by
  induction es generalizing env with
  | nil => exact .refl _
  | cons e rest ih =>
    exact (evaluation_refines hosted hle e env).bind fun r => (ih r.2).bind fun _ => .refl _

namespace Script.Refines

variable {handler : Option (Handler σ)} {x y : Script α}

/-- A script that does not run out of fuel ends as its refinements do. -/
theorem run_eq (h : x.Refines y) {m m' : Machine σ} {outcome : Except Stop α}
    (hrun : (x.run handler).run.run m = (outcome, m')) (hfuel : outcome ≠ .error .outOfFuel) :
    (y.run handler).run.run m = (outcome, m') := by
  induction h generalizing m with
  | unfinished =>
    cases hrun
    exact absurd rfl hfuel
  | done => exact hrun
  | stop => exact hrun
  | @step s next next' _ ih =>
    rcases hs : (s.run handler).run.run m with ⟨stop | r, m₁⟩
    · rw [run_step_of_error hs] at hrun ⊢
      exact hrun
    · rw [run_step_of_ok hs] at hrun ⊢
      exact ih r hrun

/-- It also asks for the same. -/
theorem asked_eq (h : x.Refines y) {m m' : Machine σ} {outcome : Except Stop α}
    (hrun : (x.run handler).run.run m = (outcome, m')) (hfuel : outcome ≠ .error .outOfFuel) :
    y.asked handler m = x.asked handler m := by
  induction h generalizing m with
  | unfinished =>
    cases hrun
    exact absurd rfl hfuel
  | done => rfl
  | stop => rfl
  | @step s next next' _ ih =>
    rw [asked, asked]
    rcases hs : (s.run handler).run.run m with ⟨stop | r, m₁⟩
    · rfl
    · rw [run_step_of_ok hs] at hrun
      exact congrArg (s.request?.toList ++ ·) (ih r hrun)

end Script.Refines

end TreeScript
