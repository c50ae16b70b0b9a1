import TreeScript.Evaluation

/-!
# Reasoning about runs

How to reason about a computation over a machine without opening it. `Run.run_bind` says what a
sequence does. `Run.Returns x P` says that whatever `x` returns satisfies `P`, from every machine;
it is kept by sequencing, so that a statement about an evaluation is put together from statements
about its steps.
-/

namespace TreeScript

/-- The scope of a closure after some closure has been given another. -/
theorem getD_setIfInBounds {scopes : Array Environment} {ref : ScopeRef} (hlt : ref < scopes.size)
    (env : Environment) (r : ScopeRef) :
    (scopes.setIfInBounds ref env).getD r Environment.empty =
      if r = ref then env else scopes.getD r Environment.empty := by
  rw [Array.getD_eq_getD_getElem?, Array.getD_eq_getD_getElem?, Array.getElem?_setIfInBounds]
  grind

/-- The scope of a closure after one has been made. -/
theorem getD_push (scopes : Array Environment) (env : Environment) (r : ScopeRef) :
    (scopes.push env).getD r Environment.empty =
      if r = scopes.size then env else scopes.getD r Environment.empty := by
  rw [Array.getD_eq_getD_getElem?, Array.getD_eq_getD_getElem?, Array.getElem?_push]
  grind

/-- A computation that can fail, followed by another: a failure ends both. -/
theorem run_run_bind {ε ρ α β : Type} (x : ExceptT ε (StateM ρ) α) (f : α → ExceptT ε (StateM ρ) β)
    (r : ρ) :
    (x >>= f).run.run r =
      match x.run.run r with
      | (.ok a, after) => (f a).run.run after
      | (.error e, after) => (.error e, after) := by
  show (ExceptT.bind x f).run.run r = _
  simp only [ExceptT.bind, ExceptT.run, ExceptT.mk, StateT.run, bind, StateT.bind]
  rcases x r with ⟨(e | a), after⟩ <;> rfl

/-- A sequence succeeds if both of its parts do. -/
theorem run_run_bind_eq_ok {ε ρ α β : Type} {x : ExceptT ε (StateM ρ) α}
    {f : α → ExceptT ε (StateM ρ) β} {r r' : ρ} {b : β} (h : (x >>= f).run.run r = (.ok b, r')) :
    ∃ a after, x.run.run r = (.ok a, after) ∧ (f a).run.run after = (.ok b, r') := by
  rw [run_run_bind] at h
  rcases hx : x.run.run r with ⟨e | a, after⟩
  · rw [hx] at h
    cases h
  · rw [hx] at h
    exact ⟨a, after, rfl, h⟩

/-- A computation whose failure is handled: what was changed before the failure stays. -/
theorem run_run_tryCatch {ε ρ α : Type} (x : ExceptT ε (StateM ρ) α)
    (f : ε → ExceptT ε (StateM ρ) α) (r : ρ) :
    (tryCatch x f).run.run r =
      match x.run.run r with
      | (.ok a, after) => (.ok a, after)
      | (.error e, after) => (f e).run.run after := by
  show (ExceptT.tryCatch x f).run.run r = _
  simp only [ExceptT.tryCatch, ExceptT.run, ExceptT.mk, StateT.run, bind, StateT.bind]
  rcases x r with ⟨(e | a), after⟩ <;> rfl

namespace Run

variable {σ α β : Type}

/-- A computation followed by another: a stop ends both. -/
theorem run_bind (x : Run σ α) (f : α → Run σ β) (m : Machine σ) :
    (x >>= f).run.run m =
      match x.run.run m with
      | (.ok a, after) => (f a).run.run after
      | (.error stop, after) => (.error stop, after) := by
  rw [run_run_bind]
  rcases x.run.run m with ⟨stop | a, after⟩ <;> rfl

/-- A sequence returns if both of its parts do. -/
theorem bind_eq_ok {x : Run σ α} {f : α → Run σ β} {m m' : Machine σ} {b : β} :
    (x >>= f).run.run m = (.ok b, m') ↔
      ∃ a after, x.run.run m = (.ok a, after) ∧ (f a).run.run after = (.ok b, m') := by
  rw [run_bind]
  constructor
  · intro h
    rcases hx : x.run.run m with ⟨stop | a, after⟩
    · rw [hx] at h
      cases h
    · rw [hx] at h
      exact ⟨a, after, rfl, h⟩
  · rintro ⟨a, after, hx, hf⟩
    rw [hx]
    exact hf

theorem ofResult_eq_ok {result : Result α} {a : α} {m m' : Machine σ}
    (h : (ofResult result : Run σ α).run.run m = (.ok a, m')) : result = .ok a ∧ m' = m := by
  cases result with
  | error failure => cases h
  | ok b =>
    cases h
    exact ⟨rfl, rfl⟩

/-! ## One run -/

/-- Whatever the computation returns satisfies `P`. -/
def Returns (x : Run σ α) (P : α → Prop) : Prop :=
  ∀ m a after, x.run.run m = (.ok a, after) → P a

theorem Returns.imp {P Q : α → Prop} {x : Run σ α} (h : Returns x P) (hPQ : ∀ a, P a → Q a) :
    Returns x Q :=
  fun m a after ha => hPQ a (h m a after ha)

theorem Returns.pure {P : α → Prop} {a : α} (h : P a) : Returns (pure a : Run σ α) P := by
  intro m b after hb
  obtain ⟨hab, -⟩ := Prod.mk.inj hb
  exact Except.ok.inj hab ▸ h

theorem Returns.throw {P : α → Prop} (stop : Stop) : Returns (throw stop : Run σ α) P := by
  intro m b after hb
  obtain ⟨hab, -⟩ := Prod.mk.inj hb
  exact absurd hab (by simp)

/-- The last part of a sequence decides what it returns. -/
theorem Returns.bind {Q : β → Prop} {x : Run σ α} {f : α → Run σ β}
    (hf : ∀ a, Returns (f a) Q) : Returns (x >>= f) Q := by
  intro m b after hb
  rw [run_bind] at hb
  rcases hx : x.run.run m with ⟨(stop | a), middle⟩
  · rw [hx] at hb
    exact absurd (congrArg Prod.fst hb) (by simp)
  · rw [hx] at hb
    exact hf a middle b after hb

/-- What the first part returns is known to the last. -/
theorem Returns.after {P : α → Prop} {Q : β → Prop} {x : Run σ α} {f : α → Run σ β}
    (hx : Returns x P) (hf : ∀ a, P a → Returns (f a) Q) : Returns (x >>= f) Q := by
  intro m b last hb
  obtain ⟨a, middle, ha, hb⟩ := bind_eq_ok.1 hb
  exact hf a (hx m a middle ha) middle b last hb

theorem Returns.map {P : α → Prop} {Q : β → Prop} {x : Run σ α} {f : α → β} (hx : Returns x P)
    (hf : ∀ a, P a → Q (f a)) : Returns (f <$> x) Q := by
  rw [map_eq_pure_bind]
  exact hx.after fun a ha => .pure (hf a ha)

/-- What is returned is returned for an item. -/
theorem Returns.mapM {R : α → β → Prop} {f : α → Run σ β} {items : List α}
    (h : ∀ a ∈ items, Returns (f a) (R a)) :
    Returns (items.mapM f) fun bs => ∀ b ∈ bs, ∃ a ∈ items, R a b := by
  induction items with
  | nil => exact .pure fun _ hb => nomatch hb
  | cons a items ih =>
    obtain ⟨ha, hitems⟩ := List.forall_mem_cons.1 h
    rw [List.mapM_cons]
    refine ha.after fun b hb => (ih hitems).after fun bs hbs => .pure ?_
    refine List.forall_mem_cons.2 ⟨⟨a, List.mem_cons_self, hb⟩, fun b' hb' => ?_⟩
    obtain ⟨a', ha', hR⟩ := hbs b' hb'
    exact ⟨a', List.mem_cons_of_mem a ha', hR⟩

theorem Returns.ofResult {P : α → Prop} {result : Result α} (h : ∀ a, result = .ok a → P a) :
    Returns (Run.ofResult result : Run σ α) P := by
  intro m a after ha
  exact h a (ofResult_eq_ok ha).1

end Run

end TreeScript
