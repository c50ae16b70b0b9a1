import TreeScript.Proofs.PairedSessions
import TreeScript.Yaml.Bundled

/-!
# What a failed run leaves behind

A session keeps its environment when a run fails. The closures in that environment are shared with
the run, though, and a definition in it can give one of them another scope: a program that binds a
second name to a procedure of the session, and then fails, has changed what that procedure computes.

`failed_run_unseen_iff` says exactly when a failed run is unseen, that is, when no programs given to
the session afterwards can tell that it took place. This is so if and only if the scopes of the
closures that the session holds are, up to the choice of closures reached through scopes only, those
from before. If none of the closures made before the run was given another scope, it is unseen.

That programs cannot tell is said of what they report and of what they leave (`Session.Indistinct`).
So one half of the equivalence, that the scopes are then the same, comes from the empty program,
which leaves all as it is. The other half is about programs: matching sessions stay matching.

What is compared is up to the numbers of closures, which a failed run uses up and which programs
cannot see. The host must not see them either.
-/

namespace TreeScript

variable {σ : Type} [Renames σ]

/-- All closures in `x` are among those that are held. -/
def HoldsOnly {α : Type} [Renames α] (held : ScopeRef → Prop) (x : α) : Prop := Follows id held x x

namespace Pairing

/-- The closures that are held stand for themselves. -/
def Keeps (p : Pairing) (held : ScopeRef → Prop) : Prop := ∀ r, held r → p.known r ∧ p.image r = r

theorem Keeps.mono {p q : Pairing} {held : ScopeRef → Prop} (h : p.Keeps held)
    (hpq : p.Extends q) : q.Keeps held := by
  intro r hr
  rw [hpq.image_eq]
  exact ⟨hpq.known_of_known r (h r hr).1, (h r hr).2⟩

theorem Keeps.matches {α : Type} [Renames α] {p : Pairing} {held : ScopeRef → Prop}
    (h : p.Keeps held) {x : α} (hx : HoldsOnly held x) : p.Matches x x := by
  intro g hg
  exact hx g fun r hr => (hg r (h r hr).1).trans (h r hr).2

/-- The pairing of a machine with one that has made more scopes after the same beginning. -/
def shift (n m : Nat) (h : n ≤ m) : Pairing where
  image r := if r < n then r else r - n + m
  known r := r < n
  left := n
  right := m
  image_inj := by
    intro r r' hr hr' heq
    rwa [if_pos hr, if_pos hr'] at heq
  lt_left := fun _ hr => hr
  image_lt_right := by
    intro r hr
    rw [if_pos hr]
    exact Nat.lt_of_lt_of_le hr h
  image_fresh := by
    intro i
    rw [if_neg (Nat.not_lt.2 (Nat.le_add_right n i)), Nat.add_sub_cancel_left, Nat.add_comm]

theorem shift_image {n m : Nat} (h : n ≤ m) {r : ScopeRef} (hr : r < n) :
    (shift n m h).image r = r :=
  if_pos hr

theorem shift_keeps {n m : Nat} (h : n ≤ m) {held : ScopeRef → Prop} (hheld : ∀ r, held r → r < n) :
    (shift n m h).Keeps held :=
  fun r hr => ⟨hheld r hr, shift_image h (hheld r hr)⟩

/-- What holds closures of the common beginning only matches itself. -/
theorem shift_matches {α : Type} [Renames α] {n m : Nat} (h : n ≤ m) {x : α}
    (hx : HoldsOnly (· < n) x) : (shift n m h).Matches x x :=
  (shift_keeps h fun _ hr => hr).matches hx

theorem Extends.image_of_shift {n : Nat} {q : Pairing} (hq : (shift n n (Nat.le_refl n)).Extends q)
    (r : ScopeRef) : q.image r = r := by
  rw [hq.image_eq]
  show (if r < n then r else r - n + n) = r
  split
  next => rfl
  next hr => exact Nat.sub_add_cancel (Nat.not_lt.1 hr)

end Pairing

namespace Session

/-- The number of closures made so far. -/
def made (s : Session σ) : Nat := s.machine.scopes.size

/-- The scope of a closure. -/
def scope (s : Session σ) (ref : ScopeRef) : Environment := s.machine.scopes.getD ref .empty

/-- The session after programs have been given to it in turn, each with its fuel. -/
def after (s : Session σ) : List (Nat × Value) → Session σ
  | [] => s
  | (fuel, program) :: later => (s.handle fuel program).2.after later

/-- Every closure that the session holds has been made. -/
structure Closed (s : Session σ) : Prop where
  env : HoldsOnly (· < s.made) s.env
  scopes : ∀ r, r < s.made → HoldsOnly (· < s.made) (s.scope r)
  host : HoldsOnly (· < s.made) s.machine.host

/-- Runs that report the same and leave the same, up to the numbers of closures other than those
held. -/
def SameRun (held : ScopeRef → Prop) (o o' : Except Stop Report × Session σ) : Prop :=
  ∃ p : Pairing, p.Keeps held ∧ p.MatchesRuns o o'

/-- Whatever programs two sessions are given, they cannot be told apart by what they do with the
last one. What they do is what they report and what they are left with, which includes the scopes of
all their closures: the empty program alone tells sessions with other scopes apart. -/
def Indistinct (held : ScopeRef → Prop) (s t : Session σ) : Prop :=
  ∀ earlier fuel program, (∀ step ∈ earlier, HoldsOnly held step.2) → HoldsOnly held program →
    SameRun held ((s.after earlier).handle fuel program) ((t.after earlier).handle fuel program)

/-- In `t`, the closures that `s` holds have the same scopes as in `s`, up to the numbers of the
closures in them. -/
def SameScopes (held : ScopeRef → Prop) (s t : Session σ) : Prop :=
  ∃ p : Pairing, p.left = s.made ∧ p.right = t.made ∧ p.Keeps held ∧
    p.Matches s.env s.env ∧ p.Matches s.machine.host s.machine.host ∧
    ∀ r, p.known r → p.Matches (s.scope r) (t.scope (p.image r))

/-! ## What a run keeps -/

omit [Renames σ] in
theorem stopped_keeps (stop : Stop) (s : Session σ) :
    (s.stopped stop).2.yaml = s.yaml ∧ (s.stopped stop).2.handler = s.handler ∧
      (s.stopped stop).2.env = s.env := by
  cases stop with
  | outOfFuel => exact ⟨rfl, rfl, rfl⟩
  | failure failure =>
    unfold stopped
    dsimp only
    split <;> exact ⟨rfl, rfl, rfl⟩

omit [Renames σ] in
/-- A run keeps the library and the handler, and the environment unless it succeeds. -/
theorem handle_keeps (fuel : Nat) (program : Value) (s : Session σ) :
    (s.handle fuel program).2.yaml = s.yaml ∧ (s.handle fuel program).2.handler = s.handler ∧
      ((s.handle fuel program).2.env = s.env ∨
        ∃ results, (s.handle fuel program).1 = .ok (.success results)) := by
  unfold handle
  dsimp only
  split
  · split <;> exact ⟨rfl, rfl, .inl rfl⟩
  · split
    next es _ =>
      unfold run
      split
      next results env machine _ => exact ⟨rfl, rfl, .inr ⟨results, rfl⟩⟩
      next stop machine _ =>
        have h := stopped_keeps stop { s.fresh with machine := machine }
        exact ⟨h.1, h.2.1, .inl h.2.2⟩
    next => exact ⟨rfl, rfl, .inl rfl⟩
    next => exact ⟨rfl, rfl, .inl rfl⟩

omit [Renames σ] in
theorem handler_after (s : Session σ) (programs : List (Nat × Value)) :
    (s.after programs).handler = s.handler := by
  induction programs generalizing s with
  | nil => rfl
  | cons step later ih =>
    rw [after, ih]
    exact (handle_keeps step.1 step.2 s).2.1

/-! ## Closed sessions -/

/-- A closed session matches itself. -/
theorem Closed.matches {s : Session σ} (h : s.Closed) :
    (Pairing.shift s.made s.made (Nat.le_refl _)).MatchesSessions s s where
  yaml := rfl
  handler := rfl
  env := Pairing.shift_matches _ h.env
  machine :=
    { size_left := rfl
      size_right := rfl
      scopes := by
        intro r hr
        rw [Pairing.shift_image _ hr]
        exact Pairing.shift_matches _ (h.scopes r hr)
      calls := .nil
      log := .nil
      host := Pairing.shift_matches _ h.host }

/-- A session that matches itself, under a pairing that has grown from a closed session, is closed.
-/
theorem closed_of_matches {n : Nat} {q : Pairing}
    (hq : (Pairing.shift n n (Nat.le_refl n)).Extends q) {s : Session σ}
    (h : q.MatchesSessions s s) : s.Closed := by
  have hleft : s.made = q.left := h.machine.size_left
  have hholds : ∀ {α : Type} [Renames α] {x : α}, q.Matches x x → HoldsOnly (· < s.made) x := by
    intro α _ x hx g hg
    refine hx g fun r hr => ?_
    rw [hq.image_of_shift, hg r (hleft ▸ q.lt_left r hr)]
    rfl
  refine ⟨hholds h.env, fun r hr => ?_, hholds h.machine.host⟩
  have hknown : q.known r := by
    rcases Nat.lt_or_ge r n with hlt | hge
    · exact hq.known_of_known r hlt
    · exact hq.known_of_made r hge (hleft ▸ hr)
  have hscope := h.machine.scopes r hknown
  rw [hq.image_of_shift] at hscope
  exact hholds hscope

/-- A run of a program leaves a closed session closed, with at least as many closures. -/
theorem Closed.handle {s : Session σ} (h : s.Closed)
    (huniform : ∀ answer, s.handler = some answer → answer.Uniform) (fuel : Nat) {program : Value}
    (hprogram : HoldsOnly (· < s.made) program) :
    (s.handle fuel program).2.Closed ∧ s.made ≤ (s.handle fuel program).2.made := by
  obtain ⟨q, hq, hrun⟩ := h.matches.handle huniform fuel (Pairing.shift_matches _ hprogram)
  refine ⟨closed_of_matches hq hrun.session, ?_⟩
  have hmade : (s.handle fuel program).2.made = q.left := hrun.session.machine.size_left
  rw [hmade]
  exact hq.left_le

theorem Closed.after {s : Session σ} (h : s.Closed)
    (huniform : ∀ answer, s.handler = some answer → answer.Uniform) {held : ScopeRef → Prop}
    (hheld : ∀ r, held r → r < s.made) (programs : List (Nat × Value))
    (hprograms : ∀ step ∈ programs, HoldsOnly held step.2) :
    (s.after programs).Closed ∧ s.made ≤ (s.after programs).made := by
  induction programs generalizing s with
  | nil => exact ⟨h, Nat.le_refl _⟩
  | cons step later ih =>
    have hprogram : HoldsOnly (· < s.made) step.2 := fun g hg =>
      hprograms step (List.mem_cons_self ..) g fun r hr => hg r (hheld r hr)
    obtain ⟨hclosed, hle⟩ := h.handle huniform step.1 hprogram
    have hlater := ih hclosed (by rwa [(handle_keeps step.1 step.2 s).2.1])
      (fun r hr => Nat.lt_of_lt_of_le (hheld r hr) hle)
      fun step hstep => hprograms step (List.mem_cons_of_mem _ hstep)
    exact ⟨hlater.1, Nat.le_trans hle hlater.2⟩

/-! ## Unseen runs -/

/-- Matching sessions cannot be told apart. -/
theorem indistinct_of_matches {held : ScopeRef → Prop} {p : Pairing} {s t : Session σ}
    (hkeeps : p.Keeps held) (h : p.MatchesSessions s t)
    (huniform : ∀ answer, s.handler = some answer → answer.Uniform) : Indistinct held s t := by
  intro earlier fuel program hearlier hprogram
  induction earlier generalizing p s t with
  | nil =>
    obtain ⟨q, hpq, hrun⟩ := h.handle huniform fuel (hkeeps.matches hprogram)
    exact ⟨q, hkeeps.mono hpq, hrun⟩
  | cons step later ih =>
    have hstep := hearlier step (List.mem_cons_self ..)
    obtain ⟨q, hpq, hrun⟩ := h.handle huniform step.1 (hkeeps.matches hstep)
    exact ih (hkeeps.mono hpq) hrun.session (by rwa [(handle_keeps step.1 step.2 s).2.1])
      fun step hstep => hearlier step (List.mem_cons_of_mem _ hstep)

/-- Sessions that cannot be told apart match: running nothing shows them as they are, since what is
left of a run is compared too. -/
theorem matches_of_indistinct {held : ScopeRef → Prop} {s t : Session σ} (h : Indistinct held s t)
    (hyaml : t.yaml = s.yaml) (hhandler : t.handler = s.handler) :
    ∃ p : Pairing, p.Keeps held ∧ p.MatchesSessions s t := by
  obtain ⟨p, hkeeps, hrun⟩ := h [] 0 (.list []) (fun _ hstep => nomatch hstep) fun _ _ => rfl
  exact ⟨p, hkeeps, hyaml, hhandler, hrun.session.env, hrun.session.machine⟩

/-- For sessions with the same environment and host, to match is to have the same scopes. -/
theorem sameScopes_iff {held : ScopeRef → Prop} {s t : Session σ} (hyaml : t.yaml = s.yaml)
    (hhandler : t.handler = s.handler) (henv : t.env = s.env)
    (hhost : t.machine.host = s.machine.host) :
    SameScopes held s t ↔ ∃ p : Pairing, p.Keeps held ∧ p.MatchesSessions s t := by
  constructor
  · rintro ⟨p, hleft, hright, hkeeps, hmatches, hhosts, hscopes⟩
    refine ⟨p, hkeeps, hyaml, hhandler, by rwa [henv], ?_⟩
    exact ⟨hleft.symm, hright.symm, hscopes, .nil, .nil, hhost.symm ▸ hhosts⟩
  · rintro ⟨p, hkeeps, h⟩
    exact ⟨p, h.machine.size_left.symm, h.machine.size_right.symm, hkeeps, henv ▸ h.env,
      hhost ▸ h.machine.host, h.machine.scopes⟩

/-- A closed session has the same scopes after a run that gave no other scope to closures made
before. -/
theorem Closed.sameScopes {held : ScopeRef → Prop} {s t : Session σ} (h : s.Closed)
    (hheld : ∀ r, held r → r < s.made) (hle : s.made ≤ t.made)
    (hkept : ∀ r, r < s.made → t.scope r = s.scope r) : SameScopes held s t := by
  refine ⟨.shift s.made t.made hle, rfl, rfl, Pairing.shift_keeps hle hheld,
    Pairing.shift_matches hle h.env, Pairing.shift_matches hle h.host, fun r hr => ?_⟩
  rw [Pairing.shift_image hle hr, hkept r hr]
  exact Pairing.shift_matches hle (h.scopes r hr)

/-- A failed run of a session with any history, during which the host did nothing, is unseen by all
programs given to the session afterwards exactly if it left the scopes of the session's closures the
same; in particular if it gave no other scope to a closure made before it. -/
theorem failed_run_unseen_iff {s₀ t : Session σ} (hclosed : s₀.Closed)
    (huniform : ∀ answer, s₀.handler = some answer → answer.Uniform) {held : ScopeRef → Prop}
    (hheld : ∀ r, held r → r < s₀.made) (history : List (Nat × Value))
    (hhistory : ∀ step ∈ history, HoldsOnly held step.2) (fuel : Nat) (program : Value)
    (hprogram : HoldsOnly held program) (message : String)
    (hrun : (s₀.after history).handle fuel program = (.ok (.error message), t))
    (hhost : t.machine.host = (s₀.after history).machine.host) :
    (Indistinct held (s₀.after history) t ↔ SameScopes held (s₀.after history) t) ∧
      ((∀ r, r < (s₀.after history).made → t.scope r = (s₀.after history).scope r) →
        Indistinct held (s₀.after history) t) := by
  obtain ⟨hs, hmade⟩ := hclosed.after huniform hheld history hhistory
  rw [← handler_after s₀ history] at huniform
  replace hheld : ∀ r, held r → r < (s₀.after history).made :=
    fun r hr => Nat.lt_of_lt_of_le (hheld r hr) hmade
  generalize s₀.after history = s at *
  have ht : (s.handle fuel program).2 = t := congrArg Prod.snd hrun
  obtain ⟨hyaml, hhandler, henv⟩ := handle_keeps fuel program s
  rw [ht] at hyaml hhandler henv
  replace henv : t.env = s.env := by
    rcases henv with henv | ⟨results, hsuccess⟩
    · exact henv
    · rw [hrun] at hsuccess
      cases hsuccess
  have hiff : Indistinct held s t ↔ SameScopes held s t := by
    rw [sameScopes_iff hyaml hhandler henv hhost]
    exact ⟨fun h => matches_of_indistinct h hyaml hhandler,
      fun ⟨p, hkeeps, h⟩ => indistinct_of_matches hkeeps h huniform⟩
  refine ⟨hiff, fun hkept => hiff.2 ?_⟩
  have hle : s.made ≤ t.made := by
    rw [← ht]
    exact (hs.handle huniform fuel fun g hg => hprogram g fun r hr => hg r (hheld r hr)).2
  exact hs.sameScopes hheld hle hkept

/-- A host that answers with what it is asked. -/
def echo : Handler Unit := fun _ args _ => ⟨.ok (.map args), [], ()⟩

theorem echo_uniform : echo.Uniform := by
  intro p name args args' host host' hargs _
  refine hargs.apply (fun args => (⟨.ok (.map args), [], ()⟩ : Reply Unit)) fun g args => ?_
  rw [← rename_map]
  rfl

/-- Makes `f` a procedure that reads the unbound name `g`. -/
def withReader : List (Nat × Value) :=
  [(2, .node (.definition "f" (.procedure [] (.variable "g"))))]

/-- Fails after `g` has been bound to the procedure `f`. -/
def aliasThenFail : Value :=
  .list [.node (.definition "g" (.variable "f")), .node (.variable "nope")]

theorem failed_run_unseen_iff_alias :
    let s₀ : Session Unit := start .bundled (some echo) .empty #[] false ()
    let s := s₀.after withReader
    (∃ message t, s.handle 2 aliasThenFail = (.ok (.error message), t) ∧
      ¬ SameScopes (fun _ => False) s t) ∧
    (∃ message t, s.handle 2 (.node (.variable "nope")) = (.ok (.error message), t) ∧
      Indistinct (fun _ => False) s t) := by
  intro s₀ s
  have hclosed : s₀.Closed :=
    ⟨fun _ _ => rfl, fun r hr => absurd hr (Nat.not_lt_zero r), fun _ _ => rfl⟩
  have huniform : ∀ answer, s₀.handler = some answer → answer.Uniform := by
    intro answer h
    cases h
    exact echo_uniform
  have hhistory : ∀ step ∈ withReader, HoldsOnly (fun _ => False) step.2 := by
    intro step hstep
    obtain rfl := List.mem_singleton.1 hstep
    exact fun _ _ => rfl
  refine ⟨⟨_, _, rfl, fun h => ?_⟩, ⟨_, _, rfl, ?_⟩⟩
  · -- A call of `f` fails before the run and returns `f` itself after it.
    have hindistinct := (failed_run_unseen_iff hclosed huniform (fun _ h => h.elim) withReader
      hhistory 2 aliasThenFail (fun _ _ => rfl) _ rfl rfl).1.2 h
    obtain ⟨p, -, hsame⟩ := hindistinct [] 3 (.node (.call (.variable "f") []))
      (fun _ hstep => nomatch hstep) (fun _ _ => rfl)
    have hreport := hsame.report.rename_eq
    cases hreport
  · refine (failed_run_unseen_iff hclosed huniform (fun _ h => h.elim) withReader hhistory 2
      (.node (.variable "nope")) (fun _ _ => rfl) _ rfl rfl).2 fun r hr => ?_
    rfl

end Session

end TreeScript
