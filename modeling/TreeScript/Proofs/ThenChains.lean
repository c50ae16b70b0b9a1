import TreeScript.Proofs.Fuel

/-!
# Chains of effects

An effect can go on with a program, in the environment in which its answer may have a name. So
effects can be put into one another, each going on with the next (`thenChain`). They can also be
given as programs one after the other (`thenSequence`). This file shows that it makes no difference:
both end alike and ask the host for the same.

The chain and the sequence take the same steps. They differ in fuel only, since in a chain each
effect has less of it than the one before. So the script of the chain is refined by that of the
sequence with as much fuel (`thenChain_refines`), and the script of the sequence by that of the
chain with fuel for every effect (`thenSequence_refines`).
-/

namespace TreeScript

variable {σ α β : Type}

/-! ## Runs that refine each other -/

namespace Run

theorem map_eq_ok {x : Run σ α} {f : α → β} {m m' : Machine σ} {b : β} :
    (f <$> x).run.run m = (.ok b, m') ↔ ∃ a, x.run.run m = (.ok a, m') ∧ f a = b := by
  rw [map_eq_pure_bind, bind_eq_ok]
  constructor
  · rintro ⟨a, m₁, hx, ⟨⟩⟩
    exact ⟨a, hx, rfl⟩
  · rintro ⟨a, hx, rfl⟩
    exact ⟨a, m', hx, rfl⟩

theorem map_eq_error {x : Run σ α} {f : α → β} {m m' : Machine σ} {stop : Stop} :
    (f <$> x).run.run m = (.error stop, m') ↔ x.run.run m = (.error stop, m') := by
  rw [map_eq_pure_bind, run_bind]
  rcases x.run.run m with ⟨stop' | a, m₁⟩
  · constructor
    · rintro ⟨⟩
      rfl
    · rintro ⟨⟩
      rfl
  · constructor
    · rintro ⟨⟩
    · rintro ⟨⟩

end Run

namespace Script

variable {handler : Option (Handler σ)}

theorem asked_map (f : α → β) (x : Script α) (m : Machine σ) :
    (f <$> x).asked handler m = x.asked handler m := by
  rw [map_eq_pure_bind, asked_bind]
  rcases (x.run handler).run.run m with ⟨stop | a, m'⟩ <;> exact List.append_nil _

/-- What a script asks for, its refinements ask for as well, before anything else. -/
theorem Refines.asked_prefix {x y : Script α} (h : x.Refines y) (handler : Option (Handler σ))
    (m : Machine σ) :
    x.asked handler m <+: y.asked handler m := by
  induction h generalizing m with
  | unfinished => exact List.nil_prefix
  | done => exact List.prefix_refl _
  | stop => exact List.prefix_refl _
  | @step s next next' _ ih =>
    rw [asked, asked, List.prefix_append_right_inj]
    rcases (s.run handler).run.run m with ⟨stop | r, m'⟩
    · exact List.nil_prefix
    · exact ih r m'

/-- Two scripts with any fuel end alike and ask for the same if each of them is refined by the other
with some fuel. -/
theorem ends_iff {x y : Nat → Script α} (hxy : ∀ fuel, ∃ fuel', (x fuel).Refines (y fuel'))
    (hyx : ∀ fuel, ∃ fuel', (y fuel).Refines (x fuel')) (handler : Option (Handler σ))
    (m m' : Machine σ) {outcome : Except Stop α} (hfuel : outcome ≠ .error .outOfFuel)
    (requests : List Request) :
    (∃ fuel, ((x fuel).run handler).run.run m = (outcome, m') ∧
        (x fuel).asked handler m = requests) ↔
      ∃ fuel, ((y fuel).run handler).run.run m = (outcome, m') ∧
        (y fuel).asked handler m = requests := by
  have hends : ∀ x y : Nat → Script α, (∀ fuel, ∃ fuel', (x fuel).Refines (y fuel')) →
      (∃ fuel, ((x fuel).run handler).run.run m = (outcome, m') ∧
        (x fuel).asked handler m = requests) →
      ∃ fuel, ((y fuel).run handler).run.run m = (outcome, m') ∧
        (y fuel).asked handler m = requests := by
    rintro x y hxy ⟨fuel, hrun, hasked⟩
    obtain ⟨fuel', hrefines⟩ := hxy fuel
    exact ⟨fuel', hrefines.run_eq hrun hfuel, (hrefines.asked_eq hrun hfuel).trans hasked⟩
  exact ⟨hends x y hxy, hends y x hyx⟩

end Script

/-! ## Chains of effects -/

/-- An effect that goes on with nothing. -/
structure Link where
  /-- The name of the effect. -/
  name : String
  /-- Its arguments. -/
  args : List (Value × Arg)
  /-- The name that the answer is given, if any. -/
  bind : Option String

/-- The effect as a program. -/
def Link.alone (l : Link) : Expr := .effect l.name l.args l.bind none

/-- The effect going on with a program. -/
def Link.andThen (l : Link) (next : Expr) : Expr := .effect l.name l.args l.bind (some next)

/-- Effects each of which goes on with the next, the last of them with a program. -/
def thenChain (links : List Link) (last : Expr) : Expr := links.foldr Link.andThen last

/-- The same effects and the same program, one after the other. -/
def thenSequence (links : List Link) (last : Expr) : List Expr := links.map Link.alone ++ [last]

/-- An effect with a continuation is the effect and then the continuation, in the environment after
the effect. The continuation has less fuel. -/
theorem evaluation_andThen (hosted : Bool) (fuel : Nat) (l : Link) (next : Expr)
    (env : Environment) :
    evaluation hosted (fuel + 1) (l.andThen next) env =
      evaluation hosted (fuel + 1) l.alone env >>= fun r => evaluation hosted fuel next r.2 := by
  cases hosted with
  | false => rfl
  | true =>
    simp only [Link.andThen, Link.alone, evaluation, if_true, Script.effect, Script.next,
      bind_assoc, pure_bind]

/-- The last of the values, with the environment after them. -/
def lastResult (r : List Value × Environment) : Option Value × Environment := (r.1.getLast?, r.2)

/-- A value that is the last one. -/
def onlyResult (r : Value × Environment) : Option Value × Environment := (some r.1, r.2)

theorem lastResult_evaluations_singleton (hosted : Bool) (fuel : Nat) (e : Expr)
    (env : Environment) :
    lastResult <$> evaluations hosted fuel [e] env =
      onlyResult <$> evaluation hosted fuel e env := by
  simp only [evaluations, map_eq_pure_bind, bind_assoc, pure_bind]
  rfl

theorem lastResult_evaluations_cons (hosted : Bool) (fuel : Nat) (e : Expr) {rest : List Expr}
    (hne : rest ≠ []) (env : Environment) :
    lastResult <$> evaluations hosted fuel (e :: rest) env =
      evaluation hosted fuel e env >>= fun r =>
        lastResult <$> evaluations hosted fuel rest r.2 := by
  cases rest with
  | nil => exact absurd rfl hne
  | cons e' rest =>
    simp only [evaluations, map_eq_pure_bind, bind_assoc, pure_bind, lastResult,
      List.getLast?_cons_cons]

theorem thenSequence_ne_nil (links : List Link) (last : Expr) : thenSequence links last ≠ [] :=
  List.append_ne_nil_of_right_ne_nil _ (List.cons_ne_nil last [])

/-- A chain takes the steps of the sequence, as far as its fuel goes. The induction is on the chain;
each continuation has less fuel than the effect before it. -/
theorem thenChain_refines (hosted : Bool) (links : List Link) (last : Expr) {fuel fuel' : Nat}
    (hle : fuel ≤ fuel') (env : Environment) :
    (onlyResult <$> evaluation hosted fuel (thenChain links last) env).Refines
      (lastResult <$> evaluations hosted fuel' (thenSequence links last) env) := by
  induction links generalizing fuel env with
  | nil =>
    show Script.Refines _ (lastResult <$> evaluations hosted fuel' [last] env)
    rw [lastResult_evaluations_singleton]
    exact (evaluation_refines hosted hle last env).map onlyResult
  | cons l links ih =>
    show Script.Refines _
      (lastResult <$> evaluations hosted fuel' (l.alone :: thenSequence links last) env)
    rw [lastResult_evaluations_cons hosted fuel' l.alone (thenSequence_ne_nil links last)]
    cases fuel with
    | zero => exact .unfinished
    | succ fuel =>
      show (onlyResult <$>
        evaluation hosted (fuel + 1) (l.andThen (thenChain links last)) env).Refines _
      rw [evaluation_andThen, map_bind]
      have hfirst := evaluation_refines hosted hle l.alone env
      exact hfirst.bind fun r => ih (by omega) r.2

/-- The sequence takes the steps of the chain with fuel for each of the effects. -/
theorem thenSequence_refines (hosted : Bool) (links : List Link) (last : Expr) {fuel fuel' : Nat}
    (hle : fuel + links.length ≤ fuel') (env : Environment) :
    (lastResult <$> evaluations hosted fuel (thenSequence links last) env).Refines
      (onlyResult <$> evaluation hosted fuel' (thenChain links last) env) := by
  induction links generalizing fuel' env with
  | nil =>
    show Script.Refines (lastResult <$> evaluations hosted fuel [last] env) _
    rw [lastResult_evaluations_singleton]
    exact (evaluation_refines hosted hle last env).map onlyResult
  | cons l links ih =>
    rw [List.length_cons] at hle
    obtain ⟨k, rfl⟩ : ∃ k, fuel' = k + 1 := ⟨fuel' - 1, by omega⟩
    show Script.Refines
      (lastResult <$> evaluations hosted fuel (l.alone :: thenSequence links last) env)
      (onlyResult <$> evaluation hosted (k + 1) (l.andThen (thenChain links last)) env)
    rw [lastResult_evaluations_cons hosted fuel l.alone (thenSequence_ne_nil links last),
      evaluation_andThen, map_bind]
    have hfirst := evaluation_refines hosted (show fuel ≤ k + 1 by omega) l.alone env
    exact hfirst.bind fun r => ih (by omega) r.2

/-! ## Runs -/

/-- The effects that a program asks its host for. -/
def evalRequests (handler : Option (Handler σ)) (fuel : Nat) (e : Expr) (env : Environment)
    (m : Machine σ) : List Script.Request :=
  (evaluation handler.isSome fuel e env).asked handler m

/-- The effects that programs one after the other ask their host for. -/
def evalAllRequests (handler : Option (Handler σ)) (fuel : Nat) (es : List Expr)
    (env : Environment) (m : Machine σ) : List Script.Request :=
  (evaluations handler.isSome fuel es env).asked handler m

section

variable {handler : Option (Handler σ)} {fuel : Nat} {env after : Environment} {m m' : Machine σ}

theorem run_onlyResult_ok {e : Expr} {v : Value} :
    ((onlyResult <$> evaluation handler.isSome fuel e env).run handler).run.run m =
        (.ok (some v, after), m') ↔
      (eval handler fuel e env).run.run m = (.ok (v, after), m') := by
  rw [Script.run_map, Run.map_eq_ok, evaluation_run]
  simp [onlyResult]

theorem run_onlyResult_error {e : Expr} {stop : Stop} :
    ((onlyResult <$> evaluation handler.isSome fuel e env).run handler).run.run m =
        (.error stop, m') ↔
      (eval handler fuel e env).run.run m = (.error stop, m') := by
  rw [Script.run_map, Run.map_eq_error, evaluation_run]

theorem run_lastResult_ok {es : List Expr} {v : Value} :
    ((lastResult <$> evaluations handler.isSome fuel es env).run handler).run.run m =
        (.ok (some v, after), m') ↔
      ∃ vs, (evalAll handler fuel es env).run.run m = (.ok (vs, after), m') ∧
        vs.getLast? = some v := by
  rw [Script.run_map, Run.map_eq_ok, evaluations_run]
  simp [lastResult]

theorem run_lastResult_error {es : List Expr} {stop : Stop} :
    ((lastResult <$> evaluations handler.isSome fuel es env).run handler).run.run m =
        (.error stop, m') ↔
      (evalAll handler fuel es env).run.run m = (.error stop, m') := by
  rw [Script.run_map, Run.map_eq_error, evaluations_run]

end

/-- The chain and the sequence end alike and ask for the same. -/
theorem thenChain_ends_iff (handler : Option (Handler σ)) (links : List Link) (last : Expr)
    (env : Environment) (m m' : Machine σ) (outcome : Except Stop (Option Value × Environment))
    (hfuel : outcome ≠ .error .outOfFuel) (requests : List Script.Request) :
    (∃ fuel, ((onlyResult <$> evaluation handler.isSome fuel (thenChain links last) env).run
          handler).run.run m = (outcome, m') ∧
        evalRequests handler fuel (thenChain links last) env m = requests) ↔
      ∃ fuel, ((lastResult <$> evaluations handler.isSome fuel (thenSequence links last) env).run
          handler).run.run m = (outcome, m') ∧
        evalAllRequests handler fuel (thenSequence links last) env m = requests := by
  have hends := Script.ends_iff
    (fun fuel => ⟨fuel, thenChain_refines handler.isSome links last (Nat.le_refl fuel) env⟩)
    (fun fuel => ⟨_, thenSequence_refines handler.isSome links last (Nat.le_refl _) env⟩)
    handler m m' hfuel requests
  simp only [Script.asked_map] at hends
  exact hends

/-- A chain of effects with a program at its end returns a value and an environment exactly if the
effects and the program one after the other return this value as their last and this environment. It
fails exactly if they do, in the same way. Both then leave the same machine behind, with the same
calls under way, and have asked the host for the same effects. If they do not end, whatever one of
them comes to ask for, the other does. -/
theorem then_chain_iff_sequence (handler : Option (Handler σ)) (links : List Link) (last : Expr)
    (env : Environment) (m : Machine σ) :
    (∀ v after m' requests,
      (∃ fuel, (eval handler fuel (thenChain links last) env).run.run m = (.ok (v, after), m') ∧
          evalRequests handler fuel (thenChain links last) env m = requests) ↔
        ∃ fuel vs,
          (evalAll handler fuel (thenSequence links last) env).run.run m = (.ok (vs, after), m') ∧
            vs.getLast? = some v ∧
            evalAllRequests handler fuel (thenSequence links last) env m = requests) ∧
    (∀ failure m' requests,
      (∃ fuel, (eval handler fuel (thenChain links last) env).run.run m =
            (.error (.failure failure), m') ∧
          evalRequests handler fuel (thenChain links last) env m = requests) ↔
        ∃ fuel, (evalAll handler fuel (thenSequence links last) env).run.run m =
            (.error (.failure failure), m') ∧
          evalAllRequests handler fuel (thenSequence links last) env m = requests) ∧
    ∀ fuel,
      evalRequests handler fuel (thenChain links last) env m <+:
          evalAllRequests handler fuel (thenSequence links last) env m ∧
        evalAllRequests handler fuel (thenSequence links last) env m <+:
          evalRequests handler (fuel + links.length) (thenChain links last) env m := by
  refine ⟨fun v after m' requests => ?_, fun failure m' requests => ?_, fun fuel => ⟨?_, ?_⟩⟩
  · have hends :=
      thenChain_ends_iff handler links last env m m' (.ok (some v, after)) nofun requests
    simp only [run_onlyResult_ok, run_lastResult_ok] at hends
    rw [hends]
    constructor
    · rintro ⟨fuel, ⟨vs, hrun, hlast⟩, hasked⟩
      exact ⟨fuel, vs, hrun, hlast, hasked⟩
    · rintro ⟨fuel, vs, hrun, hlast, hasked⟩
      exact ⟨fuel, ⟨vs, hrun, hlast⟩, hasked⟩
  · have hends := thenChain_ends_iff handler links last env m m' (.error (.failure failure))
      nofun requests
    simpa only [run_onlyResult_error, run_lastResult_error] using hends
  · have hrefines := thenChain_refines handler.isSome links last (Nat.le_refl fuel) env
    have hprefix := hrefines.asked_prefix handler m
    rwa [Script.asked_map, Script.asked_map] at hprefix
  · have hrefines := thenSequence_refines handler.isSome links last
      (Nat.le_refl (fuel + links.length)) env
    have hprefix := hrefines.asked_prefix handler m
    rwa [Script.asked_map, Script.asked_map] at hprefix

end TreeScript
