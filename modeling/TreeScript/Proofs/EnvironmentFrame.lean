import Mathlib.Data.List.Forall2
import TreeScript.Proofs.Basic
import TreeScript.Proofs.Runs
import TreeScript.Proofs.Steps

/-!
# What a program binds

An evaluation returns an environment beside its value. The names that it can have bound in it are
read off the program: that of a definition, those of the two branches of a conditional, the name
that an effect gives its answer and those of what the effect goes on with. These are the `spine` of
the program. Everything else that a program evaluates on its way (operands, arguments, conditions,
bodies) binds names for itself only.

The main statement `eval_binds_spine` is that the environment after a program is the one before it
in which only names of the spine have been bound: again, each in its place, or for the first time,
after all others.
-/

namespace TreeScript

mutual

/-- The names that a program may bind in the environment that it returns. -/
def Expr.spine : Expr → List String
  | .definition key _ => [key]
  | .conditional _ onTrue onFalse => Expr.spine onTrue ++ Expr.spine onFalse
  | .effect _ _ bind next => bind.toList ++ nextSpine next
  | _ => []
termination_by structural e => e

/-- The names that the continuation of an effect may bind. -/
def nextSpine : Option Expr → List String
  | none => []
  | some e => Expr.spine e
termination_by structural e => e

end

/-- A binding and the same one later: the name is kept, and so is the value unless the name is one
of `names`. -/
def KeptOutside (names : List String) (before after : Value × Value) : Prop :=
  after.1 = before.1 ∧ ((∀ name ∈ names, before.1 ≠ .str name) → after.2 = before.2)

/-- `after` is `before` with some of `names` bound: in their places where they were bound before,
and after all bindings of `before` where they were not. -/
def Environment.BindsWithin (names : List String) (before after : Environment) : Prop :=
  ∃ kept added : Bindings, after.bindings = kept ++ added ∧
    List.Forall₂ (KeptOutside names) before.bindings kept ∧
    ∀ k ∈ added.keys, (∃ name ∈ names, k = .str name) ∧ k ∉ before.names

theorem KeptOutside.refl (names : List String) (b : Value × Value) : KeptOutside names b b :=
  ⟨rfl, fun _ => rfl⟩

theorem KeptOutside.trans {names : List String} {a b c : Value × Value}
    (hab : KeptOutside names a b) (hbc : KeptOutside names b c) : KeptOutside names a c := by
  refine ⟨hbc.1.trans hab.1, fun ha => ?_⟩
  have hb : ∀ name ∈ names, b.1 ≠ .str name := by rw [hab.1]; exact ha
  exact (hbc.2 hb).trans (hab.2 ha)

theorem KeptOutside.mono {names more : List String} (hsub : names ⊆ more) {a b : Value × Value}
    (h : KeptOutside names a b) : KeptOutside more a b :=
  ⟨h.1, fun ha => h.2 fun name hname => ha name (hsub hname)⟩

/-- Bindings that are kept in their places have the same names. -/
theorem keys_eq_of_kept {names : List String} {before kept : Bindings}
    (h : List.Forall₂ (KeptOutside names) before kept) : kept.keys = before.keys := by
  induction h with
  | nil => rfl
  | cons hb _ ih => simpa [Bindings.keys, hb.1] using ih

theorem kept_trans {names : List String} {as bs cs : Bindings}
    (hab : List.Forall₂ (KeptOutside names) as bs) (hbc : List.Forall₂ (KeptOutside names) bs cs) :
    List.Forall₂ (KeptOutside names) as cs := by
  induction hab generalizing cs with
  | nil => exact hbc
  | cons hb _ ih =>
    cases hbc with
    | cons hc hrest => exact .cons (hb.trans hc) (ih hrest)

/-- Nothing but the names of the list may change, so without names nothing does. -/
theorem kept_nil {as bs : Bindings} (h : List.Forall₂ (KeptOutside []) as bs) : bs = as := by
  induction h with
  | nil => rfl
  | cons hb _ ih => rw [ih, Prod.ext hb.1 (hb.2 (by simp))]

namespace Environment.BindsWithin

theorem refl (names : List String) (env : Environment) : env.BindsWithin names env :=
  ⟨env.bindings, [], by simp, List.forall₂_same.2 fun b _ => KeptOutside.refl names b,
    by simp [Bindings.keys]⟩

theorem mono {names more : List String} (hsub : names ⊆ more) {before after : Environment}
    (h : before.BindsWithin names after) : before.BindsWithin more after := by
  obtain ⟨kept, added, hbs, hkept, hadded⟩ := h
  refine ⟨kept, added, hbs, hkept.imp fun _ _ => KeptOutside.mono hsub, fun k hk => ?_⟩
  obtain ⟨⟨name, hname, rfl⟩, hnew⟩ := hadded k hk
  exact ⟨⟨name, hsub hname, rfl⟩, hnew⟩

/-- Binding in two steps. What the first step has added is kept by the second or bound again in its
place, so it still stands after the bindings of `a`. -/
theorem trans {names : List String} {a b c : Environment} (hab : a.BindsWithin names b)
    (hbc : b.BindsWithin names c) : a.BindsWithin names c := by
  obtain ⟨kept, added, hb, hkept, hadded⟩ := hab
  obtain ⟨kept', added', hc, hkept', hadded'⟩ := hbc
  rw [hb] at hkept'
  have hold := List.forall₂_take kept.length hkept'
  have hnew := List.forall₂_drop kept.length hkept'
  rw [List.take_left] at hold
  rw [List.drop_left] at hnew
  refine ⟨kept'.take kept.length, kept'.drop kept.length ++ added', ?_, kept_trans hkept hold,
    fun k hk => ?_⟩
  · rw [hc, ← List.append_assoc, List.take_append_drop]
  · have hkeys : k ∈ added.keys ∨ k ∈ added'.keys := by
      rw [← keys_eq_of_kept hnew]
      simpa [Bindings.keys] using hk
    rcases hkeys with h | h
    · exact hadded k h
    · obtain ⟨hname, hfresh⟩ := hadded' k h
      refine ⟨hname, fun hmem => hfresh ?_⟩
      have hka : k ∈ kept.keys := by rw [keys_eq_of_kept hkept]; exact hmem
      show k ∈ b.bindings.keys
      rw [hb]
      simp only [Bindings.keys, List.map_append, List.mem_append]
      exact Or.inl hka

/-- Binding within no names at all changes nothing. -/
theorem eq_of_nil {before after : Environment} (h : before.BindsWithin [] after) :
    after = before := by
  obtain ⟨kept, added, hbs, hkept, hadded⟩ := h
  have hnone : added = [] := by
    cases added with
    | nil => rfl
    | cons b rest =>
      obtain ⟨⟨name, hname, -⟩, -⟩ := hadded b.1 (by simp [Bindings.keys])
      exact absurd hname (by simp)
  rw [hnone, List.append_nil, kept_nil hkept] at hbs
  cases after
  cases before
  exact congrArg Environment.mk hbs

/-- Binding one name. -/
theorem extend (env : Environment) (name : String) (value : Value) :
    env.BindsWithin [name] (env.extend name value) := by
  obtain ⟨bs⟩ := env
  show BindsWithin [name] ⟨bs⟩ ⟨bs.put (.str name) value⟩
  induction bs with
  | nil => exact ⟨[], [(.str name, value)], rfl, .nil, by simp [Bindings.keys, names]⟩
  | cons b rest ih =>
    obtain ⟨k, v⟩ := b
    rw [Bindings.put]
    by_cases hk : Value.alike (.str name) k = true
    · rw [if_pos hk]
      refine ⟨(k, value) :: rest, [], by simp, .cons ⟨rfl, fun hout => ?_⟩ ?_,
        by simp [Bindings.keys]⟩
      · exact absurd ((Value.alike_str_iff name k).1 hk) (hout name (by simp))
      · exact List.forall₂_same.2 fun b _ => KeptOutside.refl [name] b
    · rw [if_neg hk]
      obtain ⟨kept, added, hbs, hkept, hadded⟩ := ih
      refine ⟨(k, v) :: kept, added, ?_, .cons (KeptOutside.refl _ _) hkept, fun k' hk' => ?_⟩
      · exact congrArg ((k, v) :: ·) hbs
      · obtain ⟨⟨name', hname', rfl⟩, hfresh⟩ := hadded k' hk'
        refine ⟨⟨name', hname', rfl⟩, fun hmem => ?_⟩
        obtain rfl : name' = name := by simpa using hname'
        rcases List.mem_cons.1 hmem with rfl | hrest
        · exact hk ((Value.alike_str_iff name' _).2 rfl)
        · exact hfresh hrest

end Environment.BindsWithin

/-! ## Evaluation -/

variable {σ : Type}

/-- A program returns an environment in which it has bound names of its spine only. The induction is
on the fuel, since a call goes on with the body of a closure; what the body returns is not used. -/
theorem eval_returns_within (handler : Option (Handler σ)) (fuel : Nat) (e : Expr)
    (env : Environment) :
    Run.Returns (eval handler fuel e env) (fun r => env.BindsWithin e.spine r.2) := by
  induction fuel generalizing e env with
  | zero => exact Run.Returns.throw _
  | succ fuel ih =>
    cases e with
    -- these return the environment that they were given
    | number n => exact Run.Returns.pure (.refl _ env)
    | string s => exact Run.Returns.pure (.refl _ env)
    | boolean b => exact Run.Returns.pure (.refl _ env)
    | «variable» key => exact Run.Returns.bind fun _ => Run.Returns.pure (.refl _ env)
    | arithmetic op operands =>
      exact Run.Returns.bind fun _ => Run.Returns.bind fun _ => Run.Returns.pure (.refl _ env)
    | comparison op operands =>
      exact Run.Returns.bind fun _ => Run.Returns.bind fun _ => Run.Returns.pure (.refl _ env)
    | procedure inputs body => exact Run.Returns.bind fun _ => Run.Returns.pure (.refl _ env)
    | block items => exact Run.Returns.throw _
    | definition key value =>
      refine Run.Returns.bind fun r => Run.Returns.bind fun _ => Run.Returns.bind fun _ => ?_
      exact Run.Returns.pure (.extend env key r.1)
    | conditional condition onTrue onFalse =>
      refine Run.Returns.bind fun r => Run.Returns.bind fun _ => ?_
      cases r.1.isTruthy with
      | true => exact (ih onTrue env).imp fun _ h => h.mono (by simp [Expr.spine])
      | false => exact (ih onFalse env).imp fun _ h => h.mono (by simp [Expr.spine])
    | call callee arguments =>
      rw [eval_call]
      refine Run.Returns.bind fun target => ?_
      cases target with
      | closure ref inputs body =>
        refine Run.Returns.bind fun _ => Run.Returns.bind fun _ => Run.Returns.bind fun _ => ?_
        refine Run.Returns.bind fun _ => Run.Returns.bind fun _ => ?_
        exact Run.Returns.pure (.refl _ env)
      | _ => exact Run.Returns.throw _
    | effect name args bind next =>
      cases handler with
      | none => exact Run.Returns.throw _
      | some answer =>
        rw [eval_effect_some]
        refine Run.Returns.bind fun _ => Run.Returns.bind fun _ => Run.Returns.bind fun v => ?_
        have hbind : env.BindsWithin bind.toList (env.bindAnswer bind v) := by
          refine Environment.bindAnswer_cases v bind (.refl _ env) ?_
          rintro key rfl
          exact .extend env key v
        have hfirst : env.BindsWithin (Expr.spine (.effect name args bind next))
            (env.bindAnswer bind v) := hbind.mono (by simp [Expr.spine])
        cases next with
        | none => exact Run.Returns.pure hfirst
        | some continuation =>
          refine (ih continuation _).imp fun _ h => hfirst.trans (h.mono ?_)
          simp [Expr.spine, nextSpine]

/-- **The frame of an evaluation.** Whenever a program returns, every binding of the environment
before it whose name is not in the spine has kept its value, all bindings have kept their order, and
only names of the spine have been added, after them. A program without a spine returns the
environment that it was given. -/
theorem eval_binds_spine {handler : Option (Handler σ)} {fuel : Nat} {e : Expr}
    {env after : Environment} {v : Value} {m m' : Machine σ}
    (h : (eval handler fuel e env).run.run m = (.ok (v, after), m')) :
    env.BindsWithin e.spine after ∧ (e.spine = [] → after = env) := by
  have hwithin := eval_returns_within handler fuel e env m (v, after) m' h
  refine ⟨hwithin, fun hnone => Environment.BindsWithin.eq_of_nil ?_⟩
  rwa [hnone] at hwithin

/-- An effect whose argument defines `y`, whose answer is named `x` and which goes on with a
definition of `z` by a call whose body defines `y`: from `x` and `y` it leads to `x`, `y` and `z`,
and `y` is as it was. -/
theorem eval_binds_spine_effect :
    let answer : Handler Unit := fun _ _ host => ⟨.ok (.str "answer"), [], host⟩
    let e : Expr := .effect "ask" [(.str "q", .expr (.definition "y" (.number (.int 5))))]
      (some "x")
      (some (.definition "z"
        (.call (.procedure ["p"] (.definition "y" (.variable "p"))) [.number (.int 3)])))
    let before : Environment := ⟨[(.str "x", .int 1), (.str "y", .int 2)]⟩
    let after : Environment := ⟨[(.str "x", .str "answer"), (.str "y", .int 2), (.str "z", .null)]⟩
    let m : Machine Unit := ⟨#[], [], [], false, "", ()⟩
    (∃ m', (eval (some answer) 5 e before).run.run m = (.ok (.null, after), m')) ∧
      before.BindsWithin ["x", "z"] after := by
  intro answer e before after m
  obtain ⟨m', h⟩ : ∃ m', (eval (some answer) 5 e before).run.run m = (.ok (.null, after), m') :=
    ⟨_, rfl⟩
  exact ⟨⟨m', h⟩, (eval_binds_spine h).1⟩

end TreeScript
