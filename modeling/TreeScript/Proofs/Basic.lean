import TreeScript.Environment

/-!
# Results and names

What all other proofs share. A sequence of computations that can fail succeeds exactly if each of
them does. The names of an environment and the fields of a node are texts; a text is alike to itself
and to nothing else, so looking up a name or putting one is decided by equality of keys.
-/

namespace TreeScript

@[simp]
theorem Result.pure_eq_ok {α : Type} (a : α) : (pure a : Result α) = .ok a := rfl

@[simp]
theorem Result.throw_eq_error {α : Type} (failure : Failure) :
    (throw failure : Result α) = .error failure := rfl

@[simp]
theorem Result.ok_bind {α β : Type} (a : α) (f : α → Result β) :
    ((Except.ok a : Result α) >>= f) = f a := rfl

@[simp]
theorem Result.error_bind {α β : Type} (failure : Failure) (f : α → Result β) :
    ((Except.error failure : Result α) >>= f) = .error failure := rfl

@[simp]
theorem Result.ok_map {α β : Type} (a : α) (f : α → β) :
    f <$> (Except.ok a : Result α) = .ok (f a) := rfl

theorem Result.bind_eq_ok {ε α β : Type} {x : Except ε α} {f : α → Except ε β} {b : β} :
    (x >>= f) = .ok b ↔ ∃ a, x = .ok a ∧ f a = .ok b := by
  cases x with
  | error failure =>
    constructor
    · intro h
      cases h
    · rintro ⟨a, h, -⟩
      cases h
  | ok a =>
    constructor
    · intro h
      exact ⟨a, rfl, h⟩
    · rintro ⟨a', h, hf⟩
      cases h
      exact hf

theorem Result.map_eq_ok {ε α β : Type} {x : Except ε α} {f : α → β} {b : β} :
    f <$> x = .ok b ↔ ∃ a, x = .ok a ∧ f a = b := by
  cases x with
  | error e =>
    constructor
    · intro h
      cases h
    · rintro ⟨a, h, -⟩
      cases h
  | ok a =>
    constructor
    · intro h
      exact ⟨a, rfl, Except.ok.inj h⟩
    · rintro ⟨_, ⟨⟩, rfl⟩
      rfl

theorem Result.forall_of_mapM {ε α β : Type} {P : β → Prop} {f : α → Except ε β} {items : List α}
    {results : List β} (hf : ∀ a b, f a = .ok b → P b) (h : items.mapM f = .ok results) :
    ∀ b ∈ results, P b := by
  induction items generalizing results with
  | nil =>
    cases h
    simp
  | cons item rest ih =>
    rw [List.mapM_cons] at h
    obtain ⟨b, hb, h⟩ := Result.bind_eq_ok.1 h
    obtain ⟨others, hothers, h⟩ := Result.bind_eq_ok.1 h
    cases h
    exact List.forall_mem_cons.2 ⟨hf item b hb, ih hothers⟩

/-- The failure of a result, if it is one. -/
def Result.failure? {α : Type} : Result α → Option Failure
  | .error failure => some failure
  | .ok _ => none

theorem Result.failure?_eq_some {α : Type} {x : Result α} {failure : Failure} :
    x.failure? = some failure ↔ x = .error failure := by
  cases x <;> simp [Result.failure?]

theorem Result.failure?_bind_ok {α β : Type} (x : Result α) (f : α → β) :
    (x >>= fun a => (.ok (f a) : Result β)).failure? = x.failure? := by
  cases x <;> rfl

/-- Results are taken in order, and the first failure among them is the one that counts. -/
theorem Result.failure?_mapM {α β : Type} (f : α → Result β) (items : List α) :
    Result.failure? (items.mapM f) = items.findSome? fun a => (f a).failure? := by
  induction items with
  | nil => rfl
  | cons a rest ih =>
    rw [List.mapM_cons, List.findSome?_cons, ← ih]
    cases f a with
    | error failure => rfl
    | ok b => exact Result.failure?_bind_ok _ _

/-- Every failure of a result satisfies a property. -/
def Result.FailsWith {α : Type} (P : Failure → Prop) (x : Result α) : Prop :=
  ∀ failure, x = .error failure → P failure

namespace Result.FailsWith

variable {α β : Type} {P Q : Failure → Prop}

theorem pure (a : α) : FailsWith P (Pure.pure a : Result α) := by
  intro failure h
  cases h

theorem throw {failure : Failure} (h : P failure) :
    FailsWith P (MonadExcept.throw failure : Result α) := by
  intro failure' h'
  cases h'
  exact h

theorem imp {x : Result α} (h : FailsWith P x) (hPQ : ∀ failure, P failure → Q failure) :
    FailsWith Q x := fun failure hx => hPQ failure (h failure hx)

/-- What comes second only matters where the first part succeeds. -/
theorem bind {x : Result α} {f : α → Result β} (hx : FailsWith P x)
    (hf : ∀ a, x = .ok a → FailsWith P (f a)) : FailsWith P (x >>= f) := by
  cases x with
  | error failure =>
    intro failure' h
    cases h
    exact hx failure rfl
  | ok a => exact hf a rfl

theorem map {x : Result α} (f : α → β) (hx : FailsWith P x) : FailsWith P (f <$> x) := by
  rw [map_eq_pure_bind]
  exact hx.bind fun a _ => pure (f a)

theorem mapM {f : α → Result β} {items : List α} (h : ∀ a ∈ items, FailsWith P (f a)) :
    FailsWith P (items.mapM f) := by
  induction items with
  | nil => exact pure []
  | cons a rest ih =>
    rw [List.mapM_cons]
    have hrest := ih fun b hb => h b (List.mem_cons_of_mem a hb)
    exact (h a List.mem_cons_self).bind fun _ _ => hrest.bind fun _ _ => pure _

end Result.FailsWith

@[simp]
theorem Value.alike_str (s t : String) : Value.alike (.str s) (.str t) = (s == t) := by
  simp [Value.alike, Value.sameNaN, Value.equal]

/-- A text is alike to itself only. -/
theorem Value.alike_str_iff (s : String) (k : Value) :
    Value.alike (.str s) k = true ↔ k = .str s := by
  cases k with
  | str t => rw [alike_str, beq_iff_eq, Value.str.injEq, eq_comm]
  | _ => simp [Value.alike, Value.sameNaN, Value.equal]

namespace Bindings

@[simp]
theorem get?_nil (name : String) : get? [] name = none := rfl

theorem mem_of_get? {bs : Bindings} {name : String} {v : Value} (h : get? bs name = some v) :
    ∃ k, (k, v) ∈ bs := by
  obtain ⟨⟨k, w⟩, hfind, rfl⟩ := Option.map_eq_some_iff.1 h
  exact ⟨k, List.mem_of_find?_eq_some hfind⟩

theorem lookup?_cons (k v : Value) (rest : Bindings) (name : Value) :
    lookup? ((k, v) :: rest) name = if name.alike k then some v else lookup? rest name := by
  unfold lookup?
  by_cases h : name.alike k = true
  · simp [List.find?_cons_of_pos, h]
  · simp [List.find?_cons_of_neg, h]

theorem get?_cons (k v : Value) (rest : Bindings) (name : String) :
    get? ((k, v) :: rest) name = if Value.alike (.str name) k then some v else get? rest name :=
  lookup?_cons k v rest (.str name)

@[simp]
theorem get?_cons_str (key name : String) (v : Value) (rest : Bindings) :
    get? ((.str key, v) :: rest) name = if name = key then some v else get? rest name := by
  simp [get?_cons]

end Bindings

end TreeScript
