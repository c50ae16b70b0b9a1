import TreeScript.Proofs.ClosureFree
import TreeScript.Proofs.PairedEvaluation
import TreeScript.Proofs.RenamedPrograms
import TreeScript.Proofs.RenamedTexts

/-!
# Matching sessions stay matching

Two sessions match under a pairing if their environments, their hosts and the scopes of all known
closures do; what is left of the last run, the calls and the log, is not compared, since a run
starts with neither. Given matching programs, matching sessions report the same and go on as
matching sessions: `MatchesSessions.handle`. With it, whatever is asked of the two from then on is
answered alike.

A text is read before it is run. The tree of a text holds no closures, so that it matches itself.
-/

namespace TreeScript

open Session (parse programs)

variable {σ : Type} [Renames σ] {p : Pairing}

/-- Matching sessions. -/
structure Pairing.MatchesSessions (p : Pairing) (s t : Session σ) : Prop where
  yaml : t.yaml = s.yaml
  handler : t.handler = s.handler
  env : p.Matches s.env t.env
  machine : p.MatchesMachines s.fresh.machine t.fresh.machine

/-- Runs with matching reports and logs, after which the sessions match. -/
structure Pairing.MatchesRuns (p : Pairing) (o o' : Except Stop Report × Session σ) : Prop where
  report : p.Matches o.1 o'.1
  log : p.Matches o.2.machine.log o'.2.machine.log
  session : p.MatchesSessions o.2 o'.2

/-! ## From a program to its expressions -/

theorem parse_rename (yaml : Yaml.Library) (g : ScopeRef → ScopeRef) (program : Value) :
    parse yaml (rename g program) = rename g (parse yaml program) := by
  have hread : ∀ text, Document.read yaml text = rename g (Document.read yaml text) := by
    intro text
    cases h : Document.read yaml text with
    | error failure => rfl
    | ok tree => rw [rename_ok, Document.read_closureFree h g]
  cases program with
  | str text => exact hread text
  | bytes octets => exact hread (Text.decodeLossy octets)
  | _ => rfl

theorem programs_rename (g : ScopeRef → ScopeRef) (tree : Value) :
    programs (rename g tree) = rename g (programs tree) := by
  cases tree with
  | list trees => rw [rename_list]; rfl
  | _ => rfl

theorem decode_rename (g : ScopeRef → ScopeRef) (tree : Value) :
    (programs (rename g tree)).mapM Expr.ofValue =
      rename g ((programs tree).mapM Expr.ofValue) := by
  rw [programs_rename, mapM_rename g (ofValue_rename g)]

/-! ## Runs -/

namespace Pairing

theorem MatchesMachines.fresh {m m' : Machine σ} (h : p.MatchesMachines m m') :
    p.MatchesMachines { m with log := [], calls := [] } { m' with log := [], calls := [] } :=
  { h with calls := .nil, log := .nil }

theorem MatchesSessions.withMachine {s t : Session σ} {q : Pairing} (h : p.MatchesSessions s t)
    (hpq : p.Extends q) {m m' : Machine σ} (hm : q.MatchesMachines m m') :
    q.MatchesSessions { s with machine := m } { t with machine := m' } :=
  ⟨h.yaml, h.handler, h.env.mono hpq, hm.fresh⟩

/-- A failure is reported in the same words. -/
theorem MatchesSessions.fail {s t : Session σ} (h : p.MatchesSessions s t)
    (hm : p.MatchesMachines s.machine t.machine) (message : String) :
    p.MatchesRuns (s.fail message) (t.fail message) where
  report := fun _ _ => rfl
  log := hm.log.append (.cons (fun _ _ => rfl) .nil)
  session := ⟨h.yaml, h.handler, h.env, hm.fresh⟩

theorem MatchesSessions.stopped {s t : Session σ} (h : p.MatchesSessions s t)
    (hm : p.MatchesMachines s.machine t.machine) (stop : Stop) :
    p.MatchesRuns (s.stopped stop) (t.stopped stop) := by
  cases stop with
  | outOfFuel => exact ⟨fun _ _ => rfl, hm.log, h⟩
  | failure failure =>
    have hstack : stackText t.machine.calls = stackText s.machine.calls := by
      rw [← hm.calls.rename_eq, stackText_rename]
    unfold Session.stopped
    dsimp only
    rw [hstack]
    split
    · exact ⟨fun _ _ => rfl, hm.log, h⟩
    · exact h.fail hm _
    · exact h.fail hm _

theorem MatchesSessions.run {s t : Session σ} (h : p.MatchesSessions s t)
    (hm : p.MatchesMachines s.machine t.machine)
    (huniform : ∀ answer, s.handler = some answer → answer.Uniform) (fuel : Nat)
    {es es' : List Expr} (hes : p.Matches es es') :
    ∃ q, p.Extends q ∧ q.MatchesRuns (s.run fuel es) (t.run fuel es') := by
  have hrelates : p.Relates (evalAll s.handler fuel es s.env)
      (evalAll t.handler fuel es' t.env) := by
    rw [h.handler]
    exact evalAll_relates huniform fuel es hes h.env
  obtain ⟨q, hpq, hresult, hafter⟩ := hrelates s.machine t.machine hm
  refine ⟨q, hpq, ?_⟩
  unfold Session.run
  generalize (evalAll s.handler fuel es s.env).run.run s.machine = ran at hresult hafter ⊢
  generalize (evalAll t.handler fuel es' t.env).run.run t.machine = ran' at hresult hafter ⊢
  obtain ⟨result, m⟩ := ran
  obtain ⟨result', m'⟩ := ran'
  rcases hresult.outcomes with ⟨stop, rfl, rfl⟩ | ⟨⟨vs, env⟩, ⟨vs', env'⟩, rfl, rfl, hpair⟩
  · have hsessions : q.MatchesSessions { s with machine := m } { t with machine := m' } :=
      h.withMachine hpq hafter
    exact hsessions.stopped hafter stop
  · have hreport : q.Matches (Report.success vs) (.success vs') :=
      hpair.fst.apply Report.success fun _ _ => rfl
    exact ⟨hreport.apply Except.ok fun _ _ => rfl, hafter.log,
      ⟨h.yaml, h.handler, hpair.snd, hafter.fresh⟩⟩

/-- Matching sessions report the same on matching programs and go on as matching sessions. -/
theorem MatchesSessions.handle {s t : Session σ} (h : p.MatchesSessions s t)
    (huniform : ∀ answer, s.handler = some answer → answer.Uniform) (fuel : Nat)
    {program program' : Value} (hprogram : p.Matches program program') :
    ∃ q, p.Extends q ∧ q.MatchesRuns (s.handle fuel program) (t.handle fuel program') := by
  have hfresh : p.MatchesSessions s.fresh t.fresh := ⟨h.yaml, h.handler, h.env, h.machine⟩
  have hparse : p.Matches (parse s.yaml program) (parse t.yaml program') := by
    rw [h.yaml]
    exact hprogram.apply (parse s.yaml) (parse_rename s.yaml)
  unfold Session.handle
  dsimp only
  rcases hparse.outcomes with ⟨failure, hs, ht⟩ | ⟨tree, tree', hs, ht, htree⟩
  · rw [hs, ht]
    refine ⟨p, .refl p, ?_⟩
    dsimp only
    split
    · exact hfresh.fail h.machine _
    · exact ⟨fun _ _ => rfl, .nil, hfresh⟩
  · have hdecode : p.Matches ((programs tree).mapM Expr.ofValue)
        ((programs tree').mapM Expr.ofValue) :=
      htree.apply (fun tree => (programs tree).mapM Expr.ofValue) decode_rename
    rw [hs, ht]
    dsimp only
    rcases hdecode.outcomes with ⟨failure, hs, ht⟩ | ⟨es, es', hs, ht, hes⟩
    · rw [hs, ht]
      refine ⟨p, .refl p, ?_⟩
      cases failure with
      | malformed flaw => exact hfresh.fail h.machine _
      | _ => exact ⟨fun _ _ => rfl, .nil, hfresh⟩
    · rw [hs, ht]
      exact hfresh.run h.machine huniform fuel hes

end Pairing

end TreeScript
