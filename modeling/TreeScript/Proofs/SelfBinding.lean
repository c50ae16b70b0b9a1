import Mathlib
import TreeScript.Proofs.CapturedScopes
import TreeScript.Proofs.Reachability

/-!
# Procedures in their own scopes

A definition whose value is a closure gives it the environment with the new binding for a scope, so
that a procedure can call itself by its name. `scope_of_every_closure` says what this comes to in
every state of a run that starts without closures: each closure in the state has been made in the
run, and its scope is the environment in which it was made, or that of the latest definition that
gave it a name, where the name leads to the closure.

That no other closures get into the state needs a host that does not make any.
-/

namespace TreeScript

variable {σ α : Type}

/-! ## Closures in values -/

/-- All closures that a value holds as data, at whatever depth, are among some. -/
inductive Value.Within (refs : Set ScopeRef) : Value → Prop
  | closure {ref : ScopeRef} {inputs : List String} {body : Expr} :
    ref ∈ refs → Within refs (.closure ref inputs body)
  | of_parts {v : Value} : v.isClosure = false → (∀ w ∈ v.parts, Within refs w) → Within refs v

variable {refs refs' : Set ScopeRef}

namespace Value.Within

theorem mono {v : Value} (hv : v.Within refs) (hsub : refs ⊆ refs') : v.Within refs' := by
  induction hv with
  | closure href => exact .closure (hsub href)
  | of_parts hv _ ih => exact .of_parts hv ih

theorem madeOf {a b v : Value} (ha : a.Within refs) (hb : b.Within refs) (h : MadeOf a b v) :
    v.Within refs := by
  have hpart : ∀ {u w : Value}, u.Within refs → w ∈ u.parts → w.Within refs := by
    rintro u w (_ | ⟨-, hparts⟩) hw
    · cases hw
    · exact hparts w hw
  refine .of_parts h.1 fun w hw => ?_
  rcases h.2 w hw with hmem | hmem
  · exact hpart ha hmem
  · exact hpart hb hmem

end Value.Within

/-- An evaluation that holds only closures among some, which become more. -/
def Holding.among : Holding (Set ScopeRef) where
  le := (· ⊆ ·)
  value := Value.Within
  closure refs ref := ref ∈ refs
  refl _ := subset_rfl
  trans h h' _ href := h' (h href)
  mono := Value.Within.mono
  closure_iff := by
    refine ⟨?_, .closure⟩
    rintro (href | ⟨⟨⟩, -⟩)
    exact href
  leaf hv h := .of_parts hv (by simp [h])
  madeOf := Value.Within.madeOf

/-! ## Closures in the states of a run -/

variable (handler : Option (Handler σ))

/-- A state that holds no other closures than those made since there were `base` of them. -/
structure RunState.Confined (base : Nat) (c : RunState σ (List Value × Environment)) : Prop where
  base_le : base ≤ c.machine.scopes.size
  script : c.script.Keeps handler.isSome .among Holding.among.Ends
    (Set.Ico base c.machine.scopes.size)
  scopes : ∀ ref, base ≤ ref →
    Holding.among.env (Set.Ico base c.machine.scopes.size) (c.machine.scope ref)

/-- The host makes no closures: those in its answers have been made in the run. -/
def MakesNoClosures (c₀ : RunState σ α) : Prop :=
  ∀ steps name args next m answer v,
    Course handler c₀ steps ⟨.step (.perform name args) next, m⟩ → handler = some answer →
      (answer name args m.host).outcome = .ok v →
        v.Within (Set.Ico c₀.machine.scopes.size m.scopes.size)

variable {handler} {c₀ c : RunState σ (List Value × Environment)} {before steps : List Step}

theorem RunState.Confined.step {s : Step} {next : s.Reply → Script (List Value × Environment)}
    {r : s.Reply} {m m' : Machine σ} (hhost : MakesNoClosures handler c₀)
    (hbefore : Course handler c₀ before ⟨.step s next, m⟩)
    (hc : RunState.Confined handler c₀.machine.scopes.size ⟨.step s next, m⟩)
    (hs : (s.run handler).run.run m = (.ok r, m')) :
    RunState.Confined handler c₀.machine.scopes.size ⟨next r, m'⟩ := by
  obtain ⟨hbase, ⟨-, hasks, hnext⟩, hold⟩ := hc
  have hscopes : m'.scopes = s.onScopes m.scopes := Step.scopes_eq hs
  have hsize : m.scopes.size ≤ m'.scopes.size := hscopes ▸ s.size_le_onScopes m.scopes
  have hle : Set.Ico c₀.machine.scopes.size m.scopes.size ⊆
      Set.Ico c₀.machine.scopes.size m'.scopes.size := Set.Ico_subset_Ico_right hsize
  have hgets : Holding.among.Gets (Set.Ico c₀.machine.scopes.size m'.scopes.size) s r := by
    cases s with
    | close env =>
      cases hs
      exact ⟨hbase, by simp⟩
    | enter ref frame =>
      cases hs
      exact hold ref hasks.1.1
    | perform name args =>
      obtain ⟨-, -, answer, hhandler, hout⟩ := Run.ask_eq_ok hs
      exact (hhost before name args next m answer r hbefore hhandler hout).mono hle
    | _ => exact trivial
  refine ⟨hbase.trans hsize, hnext _ hle r hgets, fun ref href => Holding.env_mono ?_ hle⟩
  show Holding.among.env _ (m'.scopes.getD ref .empty)
  rw [hscopes]
  cases s with
  | close env =>
    rw [Step.onScopes, getD_push]
    split
    · exact hasks
    · exact hold ref href
  | define key value env =>
    rw [Step.onScopes]
    rcases adopted_getD value env m.scopes ref with hsame | hnew
    · rw [hsame]
      exact hold ref href
    · rw [hnew]
      exact hasks.2
  | _ => exact hold ref href

theorem Course.confined {c' : RunState σ (List Value × Environment)}
    (hhost : MakesNoClosures handler c₀) (hbefore : Course handler c₀ before c)
    (hc : c.Confined handler c₀.machine.scopes.size) (h : Course handler c steps c') :
    c'.Confined handler c₀.machine.scopes.size := by
  induction h generalizing before with
  | refl => exact hc
  | step hs _ ih => exact ih (hbefore.trans (.step hs (.refl _))) (hc.step hhost hbefore hs)
  | refuse hs =>
    obtain ⟨hscopes, -, -⟩ := Run.ask_eq_error hs
    obtain ⟨hbase, -, hold⟩ := hc
    unfold Machine.scope at hold
    rw [← hscopes] at hbase hold
    exact ⟨hbase, trivial, hold⟩

/-! ## The scopes of the closures -/

variable (handler) in
/-- On the way from `c₀` to `c` a procedure has been evaluated in the environment `made`, which gave
the closure `ref`, and then the steps `later` have been taken. -/
def MadeIn (c₀ c : RunState σ α) (ref : ScopeRef) (made : Environment) (later : List Step) : Prop :=
  ∃ earlier fuel inputs body, ∃ rest : Value × Environment → Script α, ∃ start : RunState σ α,
    start.script = (evaluation handler.isSome fuel (.procedure inputs body) made).bind rest ∧
    start.machine.scopes.size = ref ∧ Course handler c₀ earlier start ∧
    Course handler start (.close made :: later) c

/-- The scope of a closure after the steps since it was made: the environment in which it was made,
if it has not been the value of a definition, or else the environment of the latest definition whose
value it was, in which the key of this definition is bound to the closure. -/
def ScopeSince (ref : ScopeRef) (made : Environment) (later : List Step) (scope : Environment) :
    Prop :=
  given ref later = [] ∧ scope = made ∨
    ∃ before key inputs body after,
      later = before ++ .define key (.closure ref inputs body) scope :: after ∧
      given ref after = [] ∧ scope.lookup key = .ok (.closure ref inputs body)

/-- Every closure that there is more than before has been made on the way. -/
theorem Course.exists_madeIn {c₀ c : RunState σ α} (h : Course handler c₀ steps c)
    (hregular : c₀.script.Regular handler.isSome) {ref : ScopeRef}
    (hbase : c₀.machine.scopes.size ≤ ref) (href : ref < c.machine.scopes.size) :
    ∃ made later, MadeIn handler c₀ c ref made later := by
  induction h with
  | refl => exact absurd href (Nat.not_lt.2 hbase)
  | refuse hs => exact absurd href (Nat.not_lt.2 ((Run.ask_eq_error hs).1 ▸ hbase))
  | @step s next r m m' steps c hs hrest ih =>
    by_cases hlater : m'.scopes.size ≤ ref
    · obtain ⟨made, later, earlier, fuel, inputs, body, rest, start, hstart, hsize, hearlier, h⟩ :=
        ih (hregular.2 r) hlater href
      exact ⟨made, later, s :: earlier, fuel, inputs, body, rest, start, hstart, hsize,
        .step hs hearlier, h⟩
    · rw [Step.scopes_eq hs] at hlater
      cases s with
      | close env =>
        obtain ⟨inputs, body, rest, hnext⟩ := hregular.1
        obtain rfl : m.scopes.size = ref := by
          simp only [Step.onScopes, Array.size_push] at hlater
          exact Nat.le_antisymm hbase (by omega)
        obtain rfl : next = fun ref => rest (.closure ref inputs body, env) := funext hnext
        exact ⟨env, steps, [], 1, inputs, body, rest, _, rfl, rfl, .refl _, .step hs hrest⟩
      | define key value env => cases value <;> simp [Step.onScopes, adopted, hbase] at hlater
      | _ => exact absurd hbase hlater

/-- A definition binds its name in the environment that it makes. -/
theorem Course.extend_of_mem {hosted : Bool} {c c' : RunState σ α} (h : Course handler c steps c')
    (hc : c.script.Regular hosted) (key : String) (value : Value) (env : Environment)
    (hmem : .define key value env ∈ steps) :
    ∃ before : Environment, env = before.extend key value := by
  induction h with
  | refl => cases hmem
  | step _ _ ih =>
    rcases List.mem_cons.1 hmem with rfl | hrest
    · exact hc.1
    · exact ih (hc.2 _) hrest
  | refuse _ => cases List.mem_singleton.1 hmem

theorem Step.eq_define_of_gives? {s : Step} {ref : ScopeRef} {env : Environment}
    (h : s.gives? ref = some env) :
    ∃ key inputs body, s = .define key (.closure ref inputs body) env := by
  unfold gives? at h
  split at h
  · split at h
    · cases h
      subst_vars
      exact ⟨_, _, _, rfl⟩
    · cases h
  · cases h

/-- By induction from the last step to the first: a step only counts if none after it does. -/
theorem scopeSince_given (ref : ScopeRef) {later : List Step}
    (hextend : ∀ key value env, .define key value env ∈ later →
      ∃ before : Environment, env = before.extend key value) (made : Environment) :
    ScopeSince ref made later ((given ref later).getLastD made) := by
  induction later generalizing made with
  | nil => exact .inl ⟨rfl, rfl⟩
  | cons s later ih =>
    rw [given_cons]
    rcases ih (fun key value env hmem => hextend key value env (List.mem_cons_of_mem s hmem))
      ((s.gives? ref).getD made) with
      ⟨hnone, hscope⟩ | ⟨before, key, inputs, body, after, hlater, h⟩
    · rw [hscope]
      cases hgives : s.gives? ref with
      | none => exact .inl ⟨(List.filterMap_cons_none hgives).trans hnone, rfl⟩
      | some env =>
        obtain ⟨key, inputs, body, rfl⟩ := Step.eq_define_of_gives? hgives
        obtain ⟨before, rfl⟩ := hextend key _ env List.mem_cons_self
        exact .inr ⟨[], key, inputs, body, later, rfl, hnone,
          before.lookup_extend_closure key ref inputs body⟩
    · exact .inr ⟨s :: before, key, inputs, body, after, congrArg (s :: ·) hlater, h⟩

theorem Course.scopeSince {start c : RunState σ α} {made : Environment} {later : List Step}
    (h : Course handler start (.close made :: later) c)
    (hregular : start.script.Regular handler.isSome) :
    ScopeSince start.machine.scopes.size made later
      (c.machine.scope start.machine.scopes.size) := by
  cases h with
  | @step _ _ _ m _ _ _ hs hlater =>
    cases hs
    have hscope : c.machine.scope m.scopes.size = (given m.scopes.size later).getLastD made := by
      rw [hlater.scope_eq (by simp), Machine.scope, getD_push, if_pos rfl]
    rw [hscope]
    exact scopeSince_given _ (hlater.extend_of_mem (hregular.2 _)) made

/-- In every state of every run of programs that starts without closures, with a host that makes
none, all closures have been made in the run. Each was made where a procedure was evaluated, and its
scope is exactly the environment in which it was, if the closure has not been the value of a
definition since. Otherwise the scope is an environment in which the key of the latest definition
whose value it was is bound to the closure. -/
theorem scope_of_every_closure {fuel : Nat} {es : List Expr} {env : Environment} {m₀ : Machine σ}
    (henv : env.Binds (Value.Within ∅))
    (hhost : MakesNoClosures handler ⟨evaluations handler.isSome fuel es env, m₀⟩)
    (h : Course handler ⟨evaluations handler.isSome fuel es env, m₀⟩ steps c) :
    (evalAll handler fuel es env).run.run m₀ = (c.script.run handler).run.run c.machine ∧
    c.Confined handler m₀.scopes.size ∧
    ∀ ref, m₀.scopes.size ≤ ref → ref < c.machine.scopes.size →
      ∃ made later, MadeIn handler ⟨evaluations handler.isSome fuel es env, m₀⟩ c ref made later ∧
        ScopeSince ref made later (c.machine.scope ref) := by
  have hregular := evaluations_regular handler.isSome fuel es env
  refine ⟨?_, ?_, fun ref hbase href => ?_⟩
  · rw [← evaluations_run]
    exact h.run_eq
  · refine Course.confined hhost (.refl _) ⟨Nat.le_refl _, ?_, fun ref href key v hfind => ?_⟩ h
    · exact evaluations_keeps _ .among fuel es (Holding.env_mono henv (Set.empty_subset _))
    · rw [Machine.scope, Array.getD, dif_neg (Nat.not_lt.2 href)] at hfind
      cases hfind
  · obtain ⟨made, later, hmade⟩ := h.exists_madeIn hregular hbase href
    refine ⟨made, later, hmade, ?_⟩
    obtain ⟨earlier, -, -, -, -, start, -, rfl, hearlier, hlater⟩ := hmade
    exact hlater.scopeSince (hearlier.regular hregular)

/-- Gives a procedure that calls itself two names, asks the host, and makes a procedure that gets no
name. -/
def namedTwice : List Expr :=
  [.definition "f" (.procedure [] (.call (.variable "f") [])), .definition "g" (.variable "f"),
    .effect "ask" [] none none, .procedure [] (.variable "g")]

theorem scope_of_every_closure_named :
    let one : Handler Unit := fun _ _ _ => ⟨.ok (.int 1), [], ()⟩
    let start : RunState Unit (List Value × Environment) :=
      ⟨evaluations true 3 namedTwice .empty, hostless #[]⟩
    let named : Value := .closure 0 [] (.call (.variable "f") [])
    let last : Environment := ⟨[(.str "f", named), (.str "g", named)]⟩
    Environment.empty.Binds (Value.Within ∅) ∧ MakesNoClosures (some one) start ∧
    ∃ script,
      Course (some one) start
        [.close .empty, .define "f" named ⟨[(.str "f", named)]⟩, .define "g" named last,
          .perform "ask" [], .close last] ⟨script, hostless #[last, last]⟩ ∧
      RunState.Confined (some one) 0 ⟨script, hostless #[last, last]⟩ ∧
      ∀ ref < 2, ∃ made later,
        MadeIn (some one) start ⟨script, hostless #[last, last]⟩ ref made later ∧
        ScopeSince ref made later ((hostless #[last, last]).scope ref) := by
  intro one start named last
  have henv : Environment.empty.Binds (Value.Within ∅) := by
    rintro key v ⟨⟩
  have hhost : MakesNoClosures (some one) start := by
    rintro steps name args next m answer v - ⟨⟩ ⟨⟩
    exact .of_parts rfl (by simp [Value.parts])
  have hcourse : Course (some one) start _ ⟨_, hostless #[last, last]⟩ :=
    .step rfl (.step rfl (.step rfl (.step rfl (.step rfl (.refl _)))))
  obtain ⟨-, hconfined, hscopes⟩ := scope_of_every_closure henv hhost hcourse
  exact ⟨henv, hhost, _, hcourse, hconfined, fun ref href => hscopes ref (Nat.zero_le ref) href⟩

end TreeScript
