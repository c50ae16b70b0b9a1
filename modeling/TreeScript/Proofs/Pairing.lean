import TreeScript.Proofs.Renaming
import TreeScript.Proofs.Runs

/-!
# Two runs side by side

To compare two runs is to say which closure of the one stands for which of the other. A `Pairing`
says it for two machines, with the closures that are known in the first, and grows as scopes are
made. Under a pairing `p`:

* `p.Matches x y` says that `y` is what the second run holds in place of `x`;
* `p.MatchesMachines m m'` says so of the scopes of all known closures, the calls, the log and the
  host, while what is told of the steps is left out;
* `p.Relates x y` says that two computations, from matching machines, end in the same way, with
  matching results and on matching machines, under a pairing that extends `p`.

The last is kept by sequencing and holds for every elementary step of a run. A new scope is the
step that extends the pairing. That of a known closure is changed on both sides at once: here it
counts that no two known closures stand for the same.
-/

namespace TreeScript

/-- Which closures of two machines stand for each other. -/
structure Pairing where
  /-- What stands for a closure in the second machine. -/
  image : ScopeRef → ScopeRef
  /-- The closures of the first machine that are spoken of. -/
  known : ScopeRef → Prop
  /-- The number of scopes of the first machine. -/
  left : Nat
  /-- The number of scopes of the second machine. -/
  right : Nat
  image_inj : ∀ r r', known r → known r' → image r = image r' → r = r'
  lt_left : ∀ r, known r → r < left
  image_lt_right : ∀ r, known r → image r < right
  /-- Closures that are made from now on stand for each other in turn. -/
  image_fresh : ∀ i, image (left + i) = right + i

namespace Pairing

variable {σ α β γ δ : Type} [Renames σ] [Renames α] [Renames β] [Renames γ] [Renames δ]
variable {p q : Pairing}

/-- `y` is what the second run holds in place of `x`. -/
def Matches (p : Pairing) (x y : α) : Prop := Follows p.image p.known x y

/-- A later pairing: no closure is forgotten, and all that were made meanwhile are known. -/
structure Extends (p q : Pairing) : Prop where
  image_eq : q.image = p.image
  left_le : p.left ≤ q.left
  known_of_known : ∀ r, p.known r → q.known r
  known_of_made : ∀ r, p.left ≤ r → r < q.left → q.known r

theorem Extends.refl (p : Pairing) : p.Extends p where
  image_eq := rfl
  left_le := Nat.le_refl _
  known_of_known := fun _ hr => hr
  known_of_made := fun _ hle hlt => absurd hlt (Nat.not_lt.2 hle)

theorem Extends.trans {p q r : Pairing} (hpq : p.Extends q) (hqr : q.Extends r) : p.Extends r where
  image_eq := hqr.image_eq.trans hpq.image_eq
  left_le := Nat.le_trans hpq.left_le hqr.left_le
  known_of_known := fun c hc => hqr.known_of_known c (hpq.known_of_known c hc)
  known_of_made := by
    intro c hle hlt
    rcases Nat.lt_or_ge c q.left with hc | hc
    · exact hqr.known_of_known c (hpq.known_of_made c hle hc)
    · exact hqr.known_of_made c hc hlt

theorem Matches.mono {x y : α} (h : p.Matches x y) (hpq : p.Extends q) : q.Matches x y := by
  intro g hg
  refine h g fun r hr => ?_
  rw [hg r (hpq.known_of_known r hr), hpq.image_eq]

/-- The pairing after each machine has made a scope. -/
def next (p : Pairing) : Pairing where
  image := p.image
  known r := p.known r ∨ r = p.left
  left := p.left + 1
  right := p.right + 1
  image_inj := by
    have himage : p.image p.left = p.right := p.image_fresh 0
    rintro r r' (hr | rfl) (hr' | rfl) h
    · exact p.image_inj r r' hr hr' h
    · exact absurd (himage ▸ h ▸ p.image_lt_right r hr) (Nat.lt_irrefl _)
    · exact absurd (himage ▸ h.symm ▸ p.image_lt_right r' hr') (Nat.lt_irrefl _)
    · rfl
  lt_left := by
    rintro r (hr | rfl)
    · exact Nat.lt_succ_of_lt (p.lt_left r hr)
    · exact Nat.lt_succ_self _
  image_lt_right := by
    rintro r (hr | rfl)
    · exact Nat.lt_succ_of_lt (p.image_lt_right r hr)
    · exact Nat.lt_succ_of_le (Nat.le_of_eq (p.image_fresh 0))
  image_fresh i := by
    have h := p.image_fresh (i + 1)
    rwa [Nat.add_comm i 1, ← Nat.add_assoc, ← Nat.add_assoc] at h

theorem extends_next (p : Pairing) : p.Extends p.next where
  image_eq := rfl
  left_le := Nat.le_succ _
  known_of_known := fun _ hr => .inl hr
  known_of_made := fun _ hle hlt => .inr (Nat.le_antisymm (Nat.lt_succ_iff.1 hlt) hle)

/-- Matching machines. -/
structure MatchesMachines (p : Pairing) (m m' : Machine σ) : Prop where
  size_left : m.scopes.size = p.left
  size_right : m'.scopes.size = p.right
  scopes : ∀ r, p.known r →
    p.Matches (m.scopes.getD r Environment.empty) (m'.scopes.getD (p.image r) Environment.empty)
  calls : p.Matches m.calls m'.calls
  log : p.Matches m.log m'.log
  host : p.Matches m.host m'.host

/-- Computations that do the same on matching machines. -/
def Relates (p : Pairing) (x y : Run σ α) : Prop :=
  ∀ m m', p.MatchesMachines m m' →
    ∃ q, p.Extends q ∧ q.Matches (x.run.run m).1 (y.run.run m').1 ∧
      q.MatchesMachines (x.run.run m).2 (y.run.run m').2

/-! ## Sequences -/

theorem Relates.pure {a b : α} (h : p.Matches a b) : p.Relates (pure a : Run σ α) (pure b) := by
  intro m m' hm
  exact ⟨p, .refl p, h.apply Except.ok fun _ _ => rfl, hm⟩

theorem Relates.throw (stop : Stop) : p.Relates (throw stop : Run σ α) (throw stop) := by
  intro m m' hm
  exact ⟨p, .refl p, fun _ _ => rfl, hm⟩

/-- A sequence, whose second part is compared under the pairing that the first has led to. -/
theorem Relates.bind {x y : Run σ α} {f g : α → Run σ β} (hxy : p.Relates x y)
    (hfg : ∀ q a b, p.Extends q → q.Matches a b → q.Relates (f a) (g b)) :
    p.Relates (x >>= f) (y >>= g) := by
  intro m m' hm
  obtain ⟨q, hpq, hresult, hafter⟩ := hxy m m' hm
  rw [Run.run_bind, Run.run_bind]
  rcases hresult.outcomes with ⟨stop, hx, hy⟩ | ⟨a, b, hx, hy, hab⟩
  · rw [show x.run.run m = (.error stop, (x.run.run m).2) from Prod.ext hx rfl,
      show y.run.run m' = (.error stop, (y.run.run m').2) from Prod.ext hy rfl]
    exact ⟨q, hpq, fun _ _ => rfl, hafter⟩
  · rw [show x.run.run m = (.ok a, (x.run.run m).2) from Prod.ext hx rfl,
      show y.run.run m' = (.ok b, (y.run.run m').2) from Prod.ext hy rfl]
    obtain ⟨r, hqr, hend⟩ := hfg q a b hpq hab _ _ hafter
    exact ⟨r, hpq.trans hqr, hend⟩

theorem Relates.fst {x y : Run σ (α × β)} (h : p.Relates x y) :
    p.Relates (Prod.fst <$> x) (Prod.fst <$> y) := by
  rw [map_eq_pure_bind, map_eq_pure_bind]
  exact h.bind fun _ _ _ _ hab => .pure hab.fst

theorem Relates.mapM {f g : α → Run σ β}
    (hfg : ∀ q a b, p.Extends q → q.Matches a b → q.Relates (f a) (g b)) (as : List α)
    {bs : List α} (has : p.Matches as bs) : p.Relates (as.mapM f) (bs.mapM g) := by
  induction as generalizing p bs with
  | nil =>
    obtain rfl : bs = [] := has.rename_eq.symm
    exact .pure .nil
  | cons a as ih =>
    obtain rfl : bs = rename p.image a :: rename p.image as := has.rename_eq.symm
    have ha : p.Matches a (rename p.image a) := has.part fun g g' h => (List.cons.inj h).1
    have hrest : p.Matches as (rename p.image as) := has.part fun g g' h => (List.cons.inj h).2
    rw [List.mapM_cons, List.mapM_cons]
    refine (hfg p a _ (.refl p) ha).bind fun q v v' hpq hv => ?_
    refine (ih (fun r a b hqr => hfg r a b (hpq.trans hqr)) (hrest.mono hpq)).bind ?_
    intro r vs vs' hqr hvs
    exact .pure (.cons (hv.mono hqr) hvs)

/-! ## Elementary steps -/

/-- A change of the machine that does not depend on what has gone before. -/
theorem Relates.step {f g : Machine σ → Machine σ}
    (h : ∀ m m', p.MatchesMachines m m' → p.MatchesMachines (f m) (g m')) :
    p.Relates (modify f : Run σ Unit) (modify g) := by
  intro m m' hm
  exact ⟨p, .refl p, fun _ _ => rfl, h m m' hm⟩

theorem Relates.ofResult {x y : Result α} (h : p.Matches x y) :
    p.Relates (Run.ofResult x : Run σ α) (Run.ofResult y) := by
  rcases h.outcomes with ⟨failure, rfl, rfl⟩ | ⟨a, b, rfl, rfl, hab⟩
  · exact .throw (.failure failure)
  · exact .pure hab

/-- What is told of the steps is not compared. -/
theorem Relates.retrace (trace trace' : Machine σ → String) :
    p.Relates (modify fun m => if m.tracing then { m with trace := trace m } else m : Run σ Unit)
      (modify fun m => if m.tracing then { m with trace := trace' m } else m) := by
  refine .step fun m m' hm => ?_
  obtain ⟨hleft, hright, hscopes, hcalls, hlog, hhost⟩ := hm
  split <;> split <;> exact ⟨hleft, hright, hscopes, hcalls, hlog, hhost⟩

theorem Relates.tell (line line' : String) :
    p.Relates (Run.tell line : Run σ Unit) (Run.tell line') :=
  .retrace _ _

theorem Relates.tellEffect (name : String) (args args' : Bindings) :
    p.Relates (Run.tellEffect name args : Run σ Unit) (Run.tellEffect name args') := by
  unfold Run.tellEffect
  split <;> split <;> exact .retrace _ _

theorem Relates.enter {frame frame' : Frame} (h : p.Matches frame frame') :
    p.Relates (Run.enter frame : Run σ Unit) (Run.enter frame') := by
  refine .step fun m m' hm => ?_
  exact { hm with calls := hm.calls.append (.cons h .nil) }

theorem Relates.leave : p.Relates (Run.leave : Run σ Unit) Run.leave := by
  refine .step fun m m' hm => ?_
  have hcalls : p.Matches m.calls.dropLast m'.calls.dropLast :=
    hm.calls.apply List.dropLast fun g calls => List.map_dropLast.symm
  exact { hm with calls := hcalls }

theorem Relates.scopeOf {ref : ScopeRef} (h : p.known ref) :
    p.Relates (Run.scopeOf ref : Run σ Environment) (Run.scopeOf (p.image ref)) := by
  intro m m' hm
  exact ⟨p, .refl p, (hm.scopes ref h).apply Except.ok fun _ _ => rfl, hm⟩

theorem Relates.rescope {ref : ScopeRef} {env env' : Environment} (href : p.known ref)
    (henv : p.Matches env env') :
    p.Relates (Run.rescope ref env : Run σ Unit) (Run.rescope (p.image ref) env') := by
  refine .step fun m m' hm => ?_
  have hlt : ref < m.scopes.size := hm.size_left ▸ p.lt_left ref href
  have hlt' : p.image ref < m'.scopes.size := hm.size_right ▸ p.image_lt_right ref href
  refine { hm with size_left := ?_, size_right := ?_, scopes := ?_ }
  · rw [Array.size_setIfInBounds, hm.size_left]
  · rw [Array.size_setIfInBounds, hm.size_right]
  · intro r hr
    rw [getD_setIfInBounds hlt, getD_setIfInBounds hlt']
    by_cases hrr : r = ref
    · rw [if_pos hrr, if_pos (congrArg p.image hrr)]
      exact henv
    · rw [if_neg hrr, if_neg fun h => hrr (p.image_inj r ref hr href h)]
      exact hm.scopes r hr

/-- A definition shares its environment with the closure that it binds. -/
theorem Relates.adoptScope {v v' : Value} {env env' : Environment} (hv : p.Matches v v')
    (henv : p.Matches env env') :
    p.Relates (adoptScope v env : Run σ Unit) (adoptScope v' env') := by
  obtain rfl : v' = rename p.image v := hv.rename_eq.symm
  cases v with
  | closure ref inputs body =>
    exact .rescope hv.of_closure.1 henv
  | _ => exact .pure fun _ _ => rfl

theorem MatchesMachines.push {m m' : Machine σ} (hm : p.MatchesMachines m m')
    {env env' : Environment} (henv : p.Matches env env') :
    p.next.MatchesMachines { m with scopes := m.scopes.push env }
      { m' with scopes := m'.scopes.push env' } where
  size_left := by rw [Array.size_push, hm.size_left]; rfl
  size_right := by rw [Array.size_push, hm.size_right]; rfl
  scopes := by
    rintro r (hr | rfl)
    · -- A known closure was made before, on both sides.
      have hlt : r < p.left := p.lt_left r hr
      have hlt' : p.next.image r < p.right := p.image_lt_right r hr
      rw [getD_push, getD_push, hm.size_left, hm.size_right, if_neg (Nat.ne_of_lt hlt),
        if_neg (Nat.ne_of_lt hlt')]
      exact (hm.scopes r hr).mono p.extends_next
    · have himage : p.next.image p.left = p.right := p.image_fresh 0
      rw [getD_push, getD_push, hm.size_left, hm.size_right, if_pos rfl, if_pos himage]
      exact henv.mono p.extends_next
  calls := hm.calls.mono p.extends_next
  log := hm.log.mono p.extends_next
  host := hm.host.mono p.extends_next

/-- A procedure becomes a closure with a scope of its own. -/
theorem Relates.makeClosure {inputs : List String} {body body' : Expr} {env env' : Environment}
    (hbody : p.Matches body body') (henv : p.Matches env env') :
    p.Relates
      (do let ref ← Run.newScope env; Pure.pure (Value.closure ref inputs body, env) :
        Run σ (Value × Environment))
      (do let ref ← Run.newScope env'; Pure.pure (Value.closure ref inputs body', env')) := by
  intro m m' hm
  refine ⟨p.next, p.extends_next, ?_, hm.push henv⟩
  have himage : p.next.image m.scopes.size = m'.scopes.size := by
    rw [hm.size_left, hm.size_right]
    exact p.image_fresh 0
  have hclosure : p.next.Matches (Value.closure m.scopes.size inputs body)
      (.closure m'.scopes.size inputs body') :=
    himage ▸ Follows.closure (.inr hm.size_left) (hbody.mono p.extends_next)
  exact (hclosure.pair (henv.mono p.extends_next)).apply Except.ok fun _ _ => rfl

end Pairing

/-! ## Hosts -/

section Hosts

variable {σ : Type} [Renames σ]

instance : Renames (Reply σ) :=
  ⟨fun g reply => ⟨rename g reply.outcome, rename g reply.records, rename g reply.host⟩⟩

/-- The host cannot tell closures by their numbers, nor come by a closure that it has not been
given: what it does follows what it is given. -/
def Handler.Uniform (handler : Handler σ) : Prop :=
  ∀ (p : Pairing) name args args' host host', p.Matches args args' → p.Matches host host' →
    p.Matches (handler name args host) (handler name args' host')

theorem Pairing.Relates.perform {p : Pairing} {handler : Handler σ} (huniform : handler.Uniform)
    (name : String) {args args' : Bindings} (hargs : p.Matches args args') :
    p.Relates (Run.perform handler name args) (Run.perform handler name args') := by
  intro m m' hm
  have hreply := huniform p name args args' m.host m'.host hargs hm.host
  have houtcome : p.Matches (handler name args m.host).outcome
      (handler name args' m'.host).outcome :=
    fun g hg => congrArg Reply.outcome (hreply g hg)
  have hrecords : p.Matches (handler name args m.host).records
      (handler name args' m'.host).records :=
    fun g hg => congrArg Reply.records (hreply g hg)
  have hhost : p.Matches (handler name args m.host).host (handler name args' m'.host).host :=
    fun g hg => congrArg Reply.host (hreply g hg)
  refine Relates.ofResult houtcome _ _ ?_
  exact { hm with log := hm.log.append hrecords, host := hhost }

end Hosts

end TreeScript
