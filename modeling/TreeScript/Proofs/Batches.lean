import TreeScript.Proofs.CallStack
import TreeScript.Proofs.Fuel

/-!
# Programs given together or one by one

A session that is given a list of programs decodes all of them before it runs the first, passes the
environment from one to the next within one run, and has one log for all. If the programs are given
to it one by one, each has a run and a log of its own, and the environment is kept by the session in
between.

The main statement `batch_iff_turns` says that this makes no difference: the list succeeds if and
only if the programs all succeed in their turns, and then it has their values, ends in the same
session, has asked the host for the same effects and has their logs for a log. It rests on three
facts. A run that returns leaves no calls behind, so that clearing them in between changes nothing.
A run does not look at its log (`Requests`). And more fuel does not change how a run ends (`Fuel`),
so that each turn may have a bound of its own.
-/

namespace TreeScript

variable {σ : Type}

/-- A program that is not a text and not a list of programs: a tree or a decoded program. -/
def Value.isSingle : Value → Bool
  | .map _ | .node _ => true
  | _ => false

namespace Session

/-- The effects that the host is asked for when a session is given a program. -/
def asked (s : Session σ) (fuel : Nat) (program : Value) : List Script.Request :=
  match parse s.yaml program >>= fun tree => (programs tree).mapM Expr.ofValue with
  | .ok es => (evaluations s.handler.isSome fuel es s.env).asked s.handler s.fresh.machine
  | .error _ => []

/-- What comes of one program. -/
structure Turn where
  /-- Its value. -/
  value : Value
  /-- What happened. -/
  log : List Record
  /-- What the host was asked for. -/
  asked : List Script.Request

/-- Programs are given to a session one by one, each with some fuel, and all of them succeed. -/
inductive Turns : Session σ → List Value → List Turn → Session σ → Prop
  | nil {s : Session σ} : Turns s [] [] s
  | cons {s s' t : Session σ} {fuel : Nat} {p : Value} {ps : List Value} {results : List Value}
    {turns : List Turn} :
    s.handle fuel p = (.ok (.success results), s') → Turns s' ps turns t →
      Turns s (p :: ps)
        (⟨(Report.success results).value, s'.machine.log, s.asked fuel p⟩ :: turns) t

/-! ## A list of programs -/

/-- A single program is as good as a list of one. -/
theorem handle_single (s : Session σ) (fuel : Nat) {p : Value} (hp : p.isSingle = true) :
    s.handle fuel p = s.handle fuel (.list [p]) := by
  cases p <;> first | rfl | cases hp

theorem asked_single (s : Session σ) (fuel : Nat) {p : Value} (hp : p.isSingle = true) :
    s.asked fuel p = s.asked fuel (.list [p]) := by
  cases p <;> first | rfl | cases hp

theorem given_list {yaml : Yaml.Library} {ps : List Value} {es : List Expr} :
    Given yaml (.list ps) es ↔ ps.mapM Expr.ofValue = .ok es := by
  constructor
  · rintro ⟨_, ⟨⟩, hes⟩
    exact hes
  · exact fun hes => ⟨.list ps, rfl, hes⟩

theorem given_list_cons {yaml : Yaml.Library} {p : Value} {ps : List Value} {es : List Expr} :
    Given yaml (.list (p :: ps)) es ↔
      ∃ e es', Given yaml (.list [p]) [e] ∧ Given yaml (.list ps) es' ∧ es = e :: es' := by
  simp only [given_list, List.mapM_cons, List.mapM_nil]
  rcases Expr.ofValue p with failure | e
  · simp
  · rcases ps.mapM Expr.ofValue with failure | es'
    · simp
    · simp [eq_comm]

/-- A program succeeds if it can be decoded and its run returns. -/
theorem handle_eq_success {s t : Session σ} {fuel : Nat} {program : Value} {rs : List Value} :
    s.handle fuel program = (.ok (.success rs), t) ↔
      ∃ es env m, Given s.yaml program es ∧
        (evalAll s.handler fuel es s.env).run.run s.fresh.machine = (.ok (rs, env), m) ∧
        t = { s with env := env, machine := m } := by
  constructor
  · intro h
    rcases s.handle_cases fuel program with
      ⟨es, hgiven, heq⟩ | ⟨message, -, heq⟩ | ⟨failure, heq⟩
    · rcases s.fresh.run_cases fuel es with ⟨results, env, m, heval, hrun⟩ | ⟨stop, m, -, hrun⟩
      · cases (heq.trans hrun).symm.trans h
        exact ⟨es, env, m, hgiven, heval, rfl⟩
      · exact absurd ((heq.trans hrun).symm.trans h) (stopped_ne_success _ _ _ _)
    · cases heq.symm.trans h
    · cases heq.symm.trans h
  · rintro ⟨es, env, m, ⟨tree, hparse, hdecode⟩, heval, rfl⟩
    have hhandle : s.handle fuel program = s.fresh.run fuel es := by
      unfold handle
      rw [hparse]
      dsimp only
      rw [hdecode]
    rw [hhandle]
    unfold run
    rw [show (evalAll s.fresh.handler fuel es s.fresh.env).run.run s.fresh.machine = _ from heval]
    rfl

theorem asked_of_given (s : Session σ) (fuel : Nat) {program : Value} {es : List Expr}
    (h : Given s.yaml program es) :
    s.asked fuel program =
      (evaluations s.handler.isSome fuel es s.env).asked s.handler s.fresh.machine := by
  obtain ⟨tree, hparse, hdecode⟩ := h
  unfold asked
  rw [hparse]
  show (match (programs tree).mapM Expr.ofValue with
    | .ok es => (evaluations s.handler.isSome fuel es s.env).asked s.handler s.fresh.machine
    | .error _ => []) = _
  rw [hdecode]

/-! ## More fuel -/

theorem handle_of_le {s t : Session σ} {fuel fuel' : Nat} {program : Value} {rs : List Value}
    (h : s.handle fuel program = (.ok (.success rs), t)) (hle : fuel ≤ fuel') :
    s.handle fuel' program = (.ok (.success rs), t) ∧
      s.asked fuel' program = s.asked fuel program := by
  obtain ⟨es, env, m, hgiven, heval, rfl⟩ := handle_eq_success.1 h
  have hrefines := evaluations_refines s.handler.isSome hle es s.env
  rw [← evaluations_run] at heval
  have heval' := hrefines.run_eq heval nofun
  rw [evaluations_run] at heval'
  refine ⟨handle_eq_success.2 ⟨es, env, m, hgiven, heval', rfl⟩, ?_⟩
  rw [asked_of_given s fuel' hgiven, asked_of_given s fuel hgiven]
  exact hrefines.asked_eq heval nofun

/-- Whatever the fuel, a program that succeeds does so in one way. -/
theorem handle_agree {s t t' : Session σ} {fuel fuel' : Nat} {program : Value}
    {rs rs' : List Value} (h : s.handle fuel program = (.ok (.success rs), t))
    (h' : s.handle fuel' program = (.ok (.success rs'), t')) :
    rs = rs' ∧ t = t' ∧ s.asked fuel program = s.asked fuel' program := by
  obtain ⟨hmax, hasked⟩ := handle_of_le h (Nat.le_max_left fuel fuel')
  obtain ⟨hmax', hasked'⟩ := handle_of_le h' (Nat.le_max_right fuel fuel')
  cases hmax.symm.trans hmax'
  exact ⟨rfl, rfl, hasked.symm.trans hasked'⟩

theorem Turns.unique {s t t' : Session σ} {ps : List Value} {turns turns' : List Turn}
    (h : Turns s ps turns t) (h' : Turns s ps turns' t') : turns = turns' ∧ t = t' := by
  induction h generalizing turns' t' with
  | nil =>
    cases h'
    exact ⟨rfl, rfl⟩
  | cons hp _ ih =>
    cases h' with
    | cons hp' hps' =>
      obtain ⟨rfl, rfl, hasked⟩ := handle_agree hp hp'
      obtain ⟨rfl, rfl⟩ := ih hps'
      rw [hasked]
      exact ⟨rfl, rfl⟩

/-! ## The first program and the others -/

theorem evalAll_cons_eq_ok {handler : Option (Handler σ)} {fuel : Nat} {e : Expr}
    {rest : List Expr} {env last : Environment} {m m' : Machine σ} {vs : List Value} :
    (evalAll handler fuel (e :: rest) env).run.run m = (.ok (vs, last), m') ↔
      ∃ v after m₁ vs', (eval handler fuel e env).run.run m = (.ok (v, after), m₁) ∧
        (evalAll handler fuel rest after).run.run m₁ = (.ok (vs', last), m') ∧ vs = v :: vs' := by
  rw [evalAll, Run.bind_eq_ok]
  constructor
  · rintro ⟨⟨v, after⟩, m₁, he, h⟩
    obtain ⟨⟨vs', last'⟩, m₂, hrest, ⟨⟩⟩ := Run.bind_eq_ok.1 h
    exact ⟨v, after, m₁, vs', he, hrest, rfl⟩
  · rintro ⟨v, after, m₁, vs', he, hrest, rfl⟩
    exact ⟨(v, after), m₁, he, Run.bind_eq_ok.2 ⟨(vs', last), m', hrest, rfl⟩⟩

theorem evalAll_keeps_calls {handler : Option (Handler σ)} {fuel : Nat} {es : List Expr}
    {env last : Environment} {m m' : Machine σ} {vs : List Value}
    (h : (evalAll handler fuel es env).run.run m = (.ok (vs, last), m')) : m'.calls = m.calls := by
  induction es generalizing env m vs with
  | nil =>
    cases h
    rfl
  | cons e rest ih =>
    obtain ⟨v, after, m₁, vs', he, hrest, -⟩ := evalAll_cons_eq_ok.1 h
    rw [ih hrest, ((eval_divides handler fuel e env).returns m _ m₁ he).1]

/-- A session with a log before its own. -/
def prelog (s : Session σ) (records : List Record) : Session σ :=
  { s with machine := s.machine.prelog records }

/-- After a program has succeeded, the machine is the one that the next program finds, but for the
log. -/
theorem machine_of_success {s t : Session σ} {fuel : Nat} {program : Value} {rs : List Value}
    (h : s.handle fuel program = (.ok (.success rs), t)) :
    t.machine = t.fresh.machine.prelog t.machine.log := by
  obtain ⟨es, env, m, -, heval, rfl⟩ := handle_eq_success.1 h
  have hcalls : m.calls = [] := evalAll_keeps_calls heval
  show m = { m with log := m.log ++ [], calls := [] }
  rw [List.append_nil, ← hcalls]

/-- After a program has succeeded, others run as they do in a run of their own. -/
theorem evalAll_of_success {s t : Session σ} {fuel : Nat} {program : Value} {rs : List Value}
    (h : s.handle fuel program = (.ok (.success rs), t)) (es : List Expr) :
    (evalAll t.handler fuel es t.env).run.run t.machine =
      Prod.map id (·.prelog t.machine.log)
        ((evalAll t.handler fuel es t.env).run.run t.fresh.machine) := by
  have hignores : (evalAll t.handler fuel es t.env).IgnoresLog := by
    rw [← evaluations_run]
    exact Script.run_ignoresLog _
  rw [← hignores, ← machine_of_success h]

/-- A list of one program has one value. -/
theorem handle_one_eq_success {s t : Session σ} {fuel : Nat} {p : Value} {rs : List Value} :
    s.handle fuel (.list [p]) = (.ok (.success rs), t) ↔
      ∃ e v env m, Given s.yaml (.list [p]) [e] ∧
        (eval s.handler fuel e s.env).run.run s.fresh.machine = (.ok (v, env), m) ∧ rs = [v] ∧
        t = { s with env := env, machine := m } := by
  rw [handle_eq_success]
  constructor
  · rintro ⟨es, env, m, hgiven, heval, rfl⟩
    obtain ⟨e, es', hp, hnil, rfl⟩ := given_list_cons.1 hgiven
    obtain rfl : [] = es' := Except.ok.inj (given_list.1 hnil)
    obtain ⟨v, after, m₁, vs', he, hrest, rfl⟩ := evalAll_cons_eq_ok.1 heval
    cases hrest
    exact ⟨e, v, env, m, hp, he, rfl, rfl⟩
  · rintro ⟨e, v, env, m, hp, he, rfl, rfl⟩
    exact ⟨[e], env, m, hp, evalAll_cons_eq_ok.2 ⟨v, env, m, [], he, rfl, rfl⟩, rfl⟩

/-- A list of programs succeeds if the first does and then the others do. The log of the first comes
before that of the others. -/
theorem handle_list_cons {s t : Session σ} {fuel : Nat} {p : Value} {ps rs : List Value} :
    s.handle fuel (.list (p :: ps)) = (.ok (.success rs), t) ↔
      ∃ v rs' s₁ t₁, s.handle fuel (.list [p]) = (.ok (.success [v]), s₁) ∧
        s₁.handle fuel (.list ps) = (.ok (.success rs'), t₁) ∧ rs = v :: rs' ∧
        t = t₁.prelog s₁.machine.log := by
  constructor
  · intro h
    obtain ⟨es, env, m, hgiven, heval, rfl⟩ := handle_eq_success.1 h
    obtain ⟨e, es', hp, hps, rfl⟩ := given_list_cons.1 hgiven
    obtain ⟨v, after, m₁, vs', he, hrest, rfl⟩ := evalAll_cons_eq_ok.1 heval
    have hfirst : s.handle fuel (.list [p]) =
        (.ok (.success [v]), { s with env := after, machine := m₁ }) :=
      handle_one_eq_success.2 ⟨e, v, after, m₁, hp, he, rfl, rfl⟩
    have hagain := evalAll_of_success hfirst es'
    rcases heq : (evalAll s.handler fuel es' after).run.run
      (fresh { s with env := after, machine := m₁ }).machine with ⟨outcome, m₂⟩
    rw [heq] at hagain
    cases hagain.symm.trans hrest
    exact ⟨v, vs', _, { s with env := env, machine := m₂ }, hfirst,
      handle_eq_success.2 ⟨es', env, m₂, hps, heq, rfl⟩, rfl, rfl⟩
  · rintro ⟨v, rs', s₁, t₁, hfirst, hrest, rfl, rfl⟩
    obtain ⟨es', env, m₂, hps, heval, rfl⟩ := handle_eq_success.1 hrest
    have hagain := evalAll_of_success hfirst es'
    rw [heval] at hagain
    obtain ⟨e, _, after, m₁, hp, he, ⟨⟩, rfl⟩ := handle_one_eq_success.1 hfirst
    exact handle_eq_success.2 ⟨e :: es', env, _, given_list_cons.2 ⟨e, es', hp, hps, rfl⟩,
      evalAll_cons_eq_ok.2 ⟨v, after, m₁, rs', he, hagain, rfl⟩, rfl⟩

theorem asked_evaluations_cons (handler : Option (Handler σ)) (hosted : Bool) (fuel : Nat)
    (e : Expr) (rest : List Expr) (env : Environment) (m : Machine σ) :
    (evaluations hosted fuel (e :: rest) env).asked handler m =
      (evaluation hosted fuel e env).asked handler m ++
        match ((evaluation hosted fuel e env).run handler).run.run m with
        | (.ok r, m') => (evaluations hosted fuel rest r.2).asked handler m'
        | (.error _, _) => [] := by
  rw [evaluations, Script.asked_bind]
  rcases ((evaluation hosted fuel e env).run handler).run.run m with ⟨stop | ⟨v, after⟩, m'⟩
  · rfl
  · dsimp only
    rw [Script.asked_bind]
    refine congrArg (_ ++ ·) ?_
    split <;> exact List.append_nil _

/-- The host is asked for the effects of the first program and then for those of the others. -/
theorem asked_list_cons {s s₁ : Session σ} {fuel : Nat} {p : Value} {ps rs : List Value}
    {es : List Expr} (hfirst : s.handle fuel (.list [p]) = (.ok (.success rs), s₁))
    (hps : Given s.yaml (.list ps) es) :
    s.asked fuel (.list (p :: ps)) = s.asked fuel (.list [p]) ++ s₁.asked fuel (.list ps) := by
  have hm₁ := machine_of_success hfirst
  obtain ⟨e, v, after, m₁, hp, he, rfl, rfl⟩ := handle_one_eq_success.1 hfirst
  rw [← evaluation_run] at he
  rw [asked_of_given s fuel (given_list_cons.2 ⟨e, es, hp, hps, rfl⟩), asked_of_given s fuel hp,
    asked_of_given { s with env := after, machine := m₁ } fuel hps,
    asked_evaluations_cons, asked_evaluations_cons, he, List.append_assoc]
  have hrest : (evaluations s.handler.isSome fuel es after).asked s.handler m₁ =
      (evaluations s.handler.isSome fuel es after).asked s.handler
        (fresh { s with env := after, machine := m₁ }).machine :=
    (congrArg (Script.asked s.handler _) hm₁).trans (Script.asked_prelog _ _ _)
  exact congrArg (_ ++ ·) hrest

/-! ## All programs -/

/-- What a list of programs does, the programs do in their turns. -/
theorem turns_of_list {s t : Session σ} {fuel : Nat} {ps rs : List Value}
    (hps : ∀ p ∈ ps, p.isSingle = true) (h : s.handle fuel (.list ps) = (.ok (.success rs), t)) :
    ∃ turns u, Turns s ps turns u ∧ turns.map Turn.value = rs ∧ u.fresh = t.fresh ∧
      turns.flatMap Turn.log = t.machine.log ∧
      turns.flatMap Turn.asked = s.asked fuel (.list ps) := by
  induction ps generalizing s t rs with
  | nil =>
    cases h
    exact ⟨[], s, .nil, rfl, rfl, rfl, rfl⟩
  | cons p ps ih =>
    obtain ⟨v, rs', s₁, t₁, hfirst, hrest, rfl, rfl⟩ := handle_list_cons.1 h
    have hp : p.isSingle = true := hps p List.mem_cons_self
    obtain ⟨turns, u, hturns, rfl, hfresh, hlog, hasked⟩ :=
      ih (fun q hq => hps q (List.mem_cons_of_mem p hq)) hrest
    obtain ⟨es, -, -, hgiven, -, -⟩ := handle_eq_success.1 hrest
    refine ⟨_, u, .cons ((s.handle_single fuel hp).trans hfirst) hturns, rfl, hfresh, ?_, ?_⟩
    · rw [List.flatMap_cons, hlog]
      rfl
    · rw [List.flatMap_cons, hasked, asked_list_cons hfirst hgiven, s.asked_single fuel hp]

/-- Programs that succeed in their turns succeed as a list, with the most fuel that one of them
needs. -/
theorem list_of_turns {s t : Session σ} {ps : List Value} {turns : List Turn}
    (hps : ∀ p ∈ ps, p.isSingle = true) (h : Turns s ps turns t) :
    ∃ fuel rs u, s.handle fuel (.list ps) = (.ok (.success rs), u) := by
  induction h with
  | @nil s => exact ⟨0, [], s.fresh, rfl⟩
  | @cons s s' t fuel p ps results turns hp _ ih =>
    obtain ⟨fuel', rs, u, hrest⟩ := ih fun q hq => hps q (List.mem_cons_of_mem p hq)
    rw [s.handle_single fuel (hps p List.mem_cons_self)] at hp
    obtain ⟨e, v, env, m, -, -, rfl, -⟩ := handle_one_eq_success.1 hp
    have hfirst := (handle_of_le hp (Nat.le_max_left fuel fuel')).1
    have hrest := (handle_of_le hrest (Nat.le_max_right fuel fuel')).1
    exact ⟨max fuel fuel', v :: rs, u.prelog s'.machine.log,
      handle_list_cons.2 ⟨v, rs, s', u, hfirst, hrest, rfl, rfl⟩⟩

/-- A list of programs succeeds if and only if the programs succeed one by one. Then it has their
values in order, ends in the same session but for its log, has their logs in order for a log, and
has asked the host for their effects in order. -/
theorem batch_iff_turns (s : Session σ) {ps : List Value} (hps : ∀ p ∈ ps, p.isSingle = true) :
    (∀ rs, (∃ fuel t, s.handle fuel (.list ps) = (.ok (.success rs), t)) ↔
      ∃ turns u, Turns s ps turns u ∧ turns.map Turn.value = rs) ∧
    ∀ fuel rs t turns u, s.handle fuel (.list ps) = (.ok (.success rs), t) → Turns s ps turns u →
      turns.map Turn.value = rs ∧ u.fresh = t.fresh ∧ turns.flatMap Turn.log = t.machine.log ∧
        turns.flatMap Turn.asked = s.asked fuel (.list ps) := by
  have hagree : ∀ fuel rs t turns u, s.handle fuel (.list ps) = (.ok (.success rs), t) →
      Turns s ps turns u → turns.map Turn.value = rs ∧ u.fresh = t.fresh ∧
        turns.flatMap Turn.log = t.machine.log ∧
        turns.flatMap Turn.asked = s.asked fuel (.list ps) := by
    intro fuel rs t turns u hlist hturns
    obtain ⟨turns', u', hturns', h⟩ := turns_of_list hps hlist
    obtain ⟨rfl, rfl⟩ := hturns.unique hturns'
    exact h
  refine ⟨fun rs => ⟨?_, ?_⟩, hagree⟩
  · rintro ⟨fuel, t, hlist⟩
    obtain ⟨turns, u, hturns, hvalues, -⟩ := turns_of_list hps hlist
    exact ⟨turns, u, hturns, hvalues⟩
  · rintro ⟨turns, u, hturns, rfl⟩
    obtain ⟨fuel, rs, t, hlist⟩ := list_of_turns hps hturns
    obtain rfl := (hagree fuel rs t turns u hlist hturns).1
    exact ⟨fuel, t, hlist⟩

/-- A host that answers with how often it has been asked, and writes that down. -/
def counter : Handler Nat := fun _ _ n => ⟨.ok (.int n), [.output (.int n)], n + 1⟩

/-- A decoded program and a tree that both ask. The value of the second is the answer to the
first. -/
def askTwice : List Value :=
  [.node (.effect "first" [] (some "n") none),
    .map [(.str "type", .str "effect"), (.str "name", .str "second"),
      (.str "then", .map [(.str "type", .str "variable"), (.str "key", .str "n")])]]

theorem batch_iff_turns_asking :
    let s : Session Nat := start .bundled (some counter) .empty #[] false 0
    let rs : List Value := [.int 0, .int 0]
    let requests : List Script.Request := [("first", []), ("second", [])]
    ∃ t, s.handle 3 (.list askTwice) = (.ok (.success rs), t) ∧ t.machine.host = 2 ∧
      t.machine.log = [.output (.int 0), .output (.int 1)] ∧
      ∃ turns u, Turns s askTwice turns u ∧ turns.map Turn.value = rs ∧ u.fresh = t.fresh ∧
        turns.flatMap Turn.log = t.machine.log ∧ turns.flatMap Turn.asked = requests := by
  intro s rs requests
  have hsingle : ∀ p ∈ askTwice, p.isSingle = true := by decide
  have hgiven : Given s.yaml (.list askTwice) [.effect "first" [] (some "n") none,
      .effect "second" [] none (some (.variable "n"))] :=
    given_list.2 (by rfl)
  have hlist : s.handle 3 (.list askTwice) = (.ok (.success rs),
      { yaml := .bundled
        handler := some counter
        env := .extend .empty "n" (.int 0)
        machine := ⟨#[], [], [.output (.int 0), .output (.int 1)], false, "", 2⟩ }) :=
    handle_eq_success.2 ⟨_, _, _, hgiven, by cbv, rfl⟩
  have hasked : s.asked 3 (.list askTwice) = requests := by
    rw [asked_of_given s 3 hgiven]
    cbv
  obtain ⟨hiff, hagree⟩ := batch_iff_turns s hsingle
  obtain ⟨turns, u, hturns, -⟩ := (hiff rs).1 ⟨3, _, hlist⟩
  rw [← hasked]
  exact ⟨_, hlist, rfl, rfl, turns, u, hturns, hagree 3 rs _ turns u hlist hturns⟩

end Session

end TreeScript
