import Mathlib.Logic.Relation
import TreeScript.Proofs.Course
import TreeScript.Proofs.Operators

/-!
# What can be reached from a value

A value holds others: the elements of a list, the entries of a map, and, if it is a closure, what is
bound in its scope on the machine. `Machine.Reaches` follows these links, of which there can be
cycles, because a procedure is bound in its own scope.

`Machine.Bears m P v` says that the closures that can be reached from `v` all have inputs and bodies
with the property `P`. It is kept by everything that an evaluation makes of values and environments.
A step of an evaluation gives closures other scopes; it maintains the property for all values at
once if the new scopes have it (`Machine.Maintains.of_scopes`).
-/

namespace TreeScript

variable {σ : Type}

namespace Machine

/-- The values that a value holds on a machine; a closure holds what is in its scope. -/
def parts (m : Machine σ) : Value → List Value
  | .closure ref _ _ => (m.scope ref).toValue.parts
  | v => v.parts

/-- A value can be reached from another. -/
def Reaches (m : Machine σ) : Value → Value → Prop :=
  Relation.ReflTransGen fun v w => w ∈ m.parts v

/-- All closures that can be reached from a value have inputs and bodies with a property. -/
def Bears (m : Machine σ) (P : List String → Expr → Prop) (v : Value) : Prop :=
  ∀ ref inputs body, m.Reaches v (.closure ref inputs body) → P inputs body

/-- What has the property on a machine has it on another. -/
def Maintains (P : List String → Expr → Prop) (m m' : Machine σ) : Prop :=
  ∀ v, m.Bears P v → m'.Bears P v

variable {P : List String → Expr → Prop} {m m' m'' : Machine σ} {v w : Value}

theorem parts_of_not_closure (h : v.isClosure = false) : m.parts v = v.parts := by
  cases v with
  | closure => cases h
  | _ => rfl

namespace Bears

/-- The property holds of what can be reached if it holds of all closures of a set of values that is
closed under links. -/
theorem of_invariant {I : Value → Prop} (hv : I v) (hlink : ∀ u, I u → ∀ w ∈ m.parts u, I w)
    (hP : ∀ ref inputs body, I (.closure ref inputs body) → P inputs body) : m.Bears P v := by
  intro ref inputs body hreach
  have hreached : ∀ u, m.Reaches v u → I u := by
    intro u hu
    induction hu with
    | refl => exact hv
    | tail _ hw ih => exact hlink _ ih _ hw
  exact hP ref inputs body (hreached _ hreach)

theorem part (h : m.Bears P v) (hw : w ∈ m.parts v) : m.Bears P w :=
  fun ref inputs body hreach => h ref inputs body (.head hw hreach)

theorem procedure {ref : ScopeRef} {inputs : List String} {body : Expr}
    (h : m.Bears P (.closure ref inputs body)) : P inputs body :=
  h ref inputs body .refl

theorem of_parts (hv : v.isClosure = false) (h : ∀ w ∈ v.parts, m.Bears P w) : m.Bears P v := by
  intro ref inputs body hreach
  rcases Relation.ReflTransGen.cases_head hreach with rfl | ⟨w, hw, hrest⟩
  · cases hv
  · rw [parts_of_not_closure hv] at hw
    exact h w hw ref inputs body hrest

/-- What holds no other value has the property unless it is a closure. -/
theorem leaf (hv : v.isClosure = false) (h : v.parts = []) : m.Bears P v :=
  of_parts hv (by simp [h])

theorem closure {ref : ScopeRef} (hscope : m.Bears P (m.scope ref).toValue) {inputs : List String}
    {body : Expr} (hbody : P inputs body) : m.Bears P (.closure ref inputs body) := by
  intro ref' inputs' body' hreach
  rcases Relation.ReflTransGen.cases_head hreach with heq | ⟨w, hw, hrest⟩
  · cases heq
    exact hbody
  · exact hscope.part hw ref' inputs' body' hrest

theorem scope {ref : ScopeRef} {inputs : List String} {body : Expr}
    (h : m.Bears P (.closure ref inputs body)) : m.Bears P (m.scope ref).toValue :=
  of_parts rfl fun _ hw => h.part hw

/-- What is put together from values with the property has it. -/
theorem madeOf {a b : Value} (ha : m.Bears P a) (hb : m.Bears P b) (h : Value.MadeOf a b v) :
    m.Bears P v := by
  refine of_parts h.1 fun w hw => ?_
  have hparts : ∀ {x : Value}, m.Bears P x → w ∈ x.parts → m.Bears P w := by
    intro x hx hmem
    cases x with
    | closure => cases hmem
    | _ => exact hx.part hmem
  rcases h.2 w hw with hmem | hmem
  · exact hparts ha hmem
  · exact hparts hb hmem

end Bears

namespace Maintains

theorem refl (m : Machine σ) : Maintains P m m := fun _ h => h

theorem trans (h : Maintains P m m') (h' : Maintains P m' m'') : Maintains P m m'' :=
  fun v hv => h' v (h v hv)

/-- Giving closures scopes with the property maintains it: what can be reached then has it, link by
link. -/
theorem of_scopes (h : ∀ ref, m'.scope ref = m.scope ref ∨ m.Bears P (m'.scope ref).toValue) :
    Maintains P m m' := by
  intro v hv
  refine Bears.of_invariant hv (fun u hu w hw => ?_) fun _ _ _ hu => hu.procedure
  cases u with
  | closure ref inputs body =>
    rcases h ref with hsame | hnew
    · exact hu.part (by rwa [parts, ← hsame])
    · exact hnew.part hw
  | _ => exact hu.part hw

end Maintains

end Machine

/-! ## Environments -/

theorem Bindings.mem_put {bs : Bindings} {key value : Value} {entry : Value × Value}
    (h : entry ∈ bs.put key value) :
    entry ∈ bs ∨ entry.2 = value ∧ (entry.1 = key ∨ ∃ old, (entry.1, old) ∈ bs) := by
  induction bs with
  | nil =>
    obtain rfl := List.mem_singleton.1 h
    exact .inr ⟨rfl, .inl rfl⟩
  | cons b rest ih =>
    obtain ⟨k, v⟩ := b
    rw [put] at h
    split at h
    · rcases List.mem_cons.1 h with rfl | hrest
      · exact .inr ⟨rfl, .inr ⟨v, List.mem_cons_self⟩⟩
      · exact .inl (List.mem_cons_of_mem _ hrest)
    · rcases List.mem_cons.1 h with rfl | hrest
      · exact .inl List.mem_cons_self
      · rcases ih hrest with hold | ⟨hvalue, hkey | ⟨old, hold⟩⟩
        · exact .inl (List.mem_cons_of_mem _ hold)
        · exact .inr ⟨hvalue, .inl hkey⟩
        · exact .inr ⟨hvalue, .inr ⟨old, List.mem_cons_of_mem _ hold⟩⟩

namespace Machine.Bears

variable {P : List String → Expr → Prop} {m : Machine σ} {env : Environment}

theorem environment_iff :
    m.Bears P env.toValue ↔ ∀ entry ∈ env.bindings, m.Bears P entry.1 ∧ m.Bears P entry.2 := by
  constructor
  · intro h entry hentry
    have hmem : ∀ v ∈ [entry.1, entry.2], v ∈ m.parts env.toValue :=
      fun v hv => List.mem_flatMap.2 ⟨entry, hentry, hv⟩
    exact ⟨h.part (hmem _ (by simp)), h.part (hmem _ (by simp))⟩
  · intro h
    refine of_parts rfl fun w hw => ?_
    obtain ⟨entry, hentry, hmem⟩ := List.mem_flatMap.1 hw
    rcases List.mem_cons.1 hmem with rfl | hvalue
    · exact (h entry hentry).1
    · exact List.mem_singleton.1 hvalue ▸ (h entry hentry).2

theorem str (s : String) : m.Bears P (.str s) := leaf rfl rfl

theorem lookup (h : m.Bears P env.toValue) {key : String} {v : Value}
    (hv : env.lookup key = .ok v) : m.Bears P v := by
  unfold Environment.lookup at hv
  split at hv
  · cases hv
  · cases hv
  · rename_i w _ hfind
    cases hv
    obtain ⟨k, hmem⟩ := Bindings.mem_of_get? hfind
    exact (environment_iff.1 h _ hmem).2

theorem extend (h : m.Bears P env.toValue) (key : String) {v : Value} (hv : m.Bears P v) :
    m.Bears P (env.extend key v).toValue := by
  refine environment_iff.2 fun entry hentry => ?_
  rcases Bindings.mem_put hentry with hold | ⟨hvalue, hkey | ⟨old, hold⟩⟩
  · exact environment_iff.1 h entry hold
  · exact ⟨hkey ▸ str key, hvalue ▸ hv⟩
  · exact ⟨(environment_iff.1 h _ hold).1, hvalue ▸ hv⟩

theorem extendMany {pairs : List (String × Value)} (h : m.Bears P env.toValue)
    (hpairs : ∀ pair ∈ pairs, m.Bears P pair.2) : m.Bears P (env.extendMany pairs).toValue := by
  induction pairs generalizing env with
  | nil => exact h
  | cons pair rest ih =>
    obtain ⟨hpair, hrest⟩ := List.forall_mem_cons.1 hpairs
    exact ih (h.extend pair.1 hpair) hrest

theorem bindInputs {args : List Value} (h : ∀ v ∈ args, m.Bears P v) (inputs : List String) :
    ∀ pair ∈ bindInputs inputs args, m.Bears P pair.2 := by
  induction inputs generalizing args with
  | nil => exact fun _ h => nomatch h
  | cons name names ih =>
    cases args with
    | nil => exact List.forall_mem_cons.2 ⟨leaf rfl rfl, ih h⟩
    | cons v vs =>
      obtain ⟨hv, hvs⟩ := List.forall_mem_cons.1 h
      exact List.forall_mem_cons.2 ⟨hv, ih hvs⟩

theorem bindAnswer (h : m.Bears P env.toValue) (bind : Option String) {v : Value}
    (hv : m.Bears P v) : m.Bears P (env.bindAnswer bind v).toValue :=
  Environment.bindAnswer_cases (P := fun env => m.Bears P env.toValue) v bind h
    fun key _ => h.extend key hv

end Machine.Bears

/-! ## Scopes that are given to closures -/

theorem adopted_getD (value : Value) (env : Environment) (scopes : Array Environment)
    (ref : ScopeRef) :
    (adopted value env scopes).getD ref .empty = scopes.getD ref .empty ∨
      (adopted value env scopes).getD ref .empty = env := by
  cases value with
  | closure r inputs body =>
    show (scopes.setIfInBounds r env).getD ref .empty = _ ∨
      (scopes.setIfInBounds r env).getD ref .empty = _
    rcases Nat.lt_or_ge r scopes.size with hlt | hge
    · rw [getD_setIfInBounds hlt]
      split
      · exact .inr rfl
      · exact .inl rfl
    · rw [Array.setIfInBounds_eq_of_size_le hge]
      exact .inl rfl
  | _ => exact .inl rfl

namespace Machine.Maintains

variable {P : List String → Expr → Prop} {m m' : Machine σ} {env : Environment}

theorem push (henv : m.Bears P env.toValue) (h : m'.scopes = m.scopes.push env) :
    Maintains P m m' := by
  refine of_scopes fun ref => ?_
  unfold Machine.scope
  rw [h, getD_push]
  split
  · exact .inr henv
  · exact .inl rfl

theorem adopt (v : Value) (henv : m.Bears P env.toValue) (h : m'.scopes = adopted v env m.scopes) :
    Maintains P m m' := by
  refine of_scopes fun ref => ?_
  unfold Machine.scope
  rw [h]
  rcases adopted_getD v env m.scopes ref with hsame | hnew
  · exact .inl hsame
  · rw [hnew]
    exact .inr henv

theorem of_scopes_eq (h : m'.scopes = m.scopes) : Maintains P m m' :=
  of_scopes fun ref => .inl (by rw [Machine.scope, Machine.scope, h])

end Machine.Maintains

end TreeScript
