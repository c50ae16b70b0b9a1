import TreeScript.Evaluation
import TreeScript.Proofs.Basic

/-!
# What operators give

An operator either gives a value that is put together from parts of its operands, or fails because
of the kinds or the sizes of its operands. In particular no operator makes a closure, or holds one
that is not in an operand.
-/

namespace TreeScript

/-- The values that a value holds as data. -/
def Value.parts : Value → List Value
  | .list items => items
  | .tuple items => items
  | .set items => items
  | .map entries => entries.flatMap fun entry => [entry.1, entry.2]
  | .env bindings => bindings.flatMap fun entry => [entry.1, entry.2]
  | .object attributes => attributes.flatMap fun entry => [entry.1, entry.2]
  | .literal v => [v]
  | _ => []

/-- Whether a value is a closure. -/
def Value.isClosure : Value → Bool
  | .closure .. => true
  | _ => false

/-- A value other than a closure that holds nothing but what `a` or `b` hold. -/
def Value.MadeOf (a b v : Value) : Prop :=
  v.isClosure = false ∧ ∀ w ∈ v.parts, w ∈ a.parts ∨ w ∈ b.parts

/-- Whether a failure is one of an operator: operands of the wrong kinds, a number that is too
large, or a sequence that does not fit into memory. -/
def Failure.isOfOperator : Failure → Bool
  | .type _ => true
  | .overflow _ => true
  | .raised kind message => kind == "MemoryError" && message == ""
  | _ => false

/-- What a computation gives satisfies `P`, and its failures are those of operators. -/
def Result.OfOperator {α : Type} (P : α → Prop) : Result α → Prop
  | .ok a => P a
  | .error failure => failure.isOfOperator = true

namespace Result.OfOperator

variable {α β : Type} {P : α → Prop} {Q : β → Prop}

theorem bind {x : Result α} {f : α → Result β} (hx : OfOperator P x)
    (hf : ∀ a, P a → OfOperator Q (f a)) : OfOperator Q (x >>= f) := by
  cases x with
  | error failure => exact hx
  | ok a => exact hf a hx

theorem ite {c : Prop} [Decidable c] {x y : Result α} (hx : OfOperator P x) (hy : OfOperator P y) :
    OfOperator P (if c then x else y) := by
  split
  · exact hx
  · exact hy

end Result.OfOperator

/-! ## Arithmetic -/

theorem Value.MadeOf.float (a b : Value) (x : Binary64) : MadeOf a b (.float x) :=
  ⟨rfl, fun _ h => nomatch h⟩

theorem Value.MadeOf.int (a b : Value) (i : Int) : MadeOf a b (.int i) :=
  ⟨rfl, fun _ h => nomatch h⟩

theorem Value.MadeOf.comm {a b v : Value} (h : MadeOf a b v) : MadeOf b a v :=
  ⟨h.1, fun w hw => (h.2 w hw).symm⟩

theorem Number.toFloat_ofOperator (n : Number) : n.toFloat.OfOperator fun _ => True := by
  cases n with
  | int i =>
    unfold toFloat
    dsimp only
    cases Binary64.ofInt? i with
    | none => exact rfl
    | some x => exact trivial
  | float x => exact trivial

theorem Number.combine_ofOperator {P : Value → Prop} (hint : ∀ i, P (.int i))
    (hfloat : ∀ x, P (.float x)) (onInts : Int → Int → Int)
    (onFloats : Binary64 → Binary64 → Binary64) (x y : Number) :
    (combine onInts onFloats x y).OfOperator P := by
  have hfloats : (do
      let p ← x.toFloat
      let q ← y.toFloat
      pure (.float (onFloats p q)) : Result Value).OfOperator P :=
    x.toFloat_ofOperator.bind fun p _ => y.toFloat_ofOperator.bind fun q _ => hfloat _
  cases x with
  | float p => exact hfloats
  | int i =>
    cases y with
    | float q => exact hfloats
    | int j => exact hint _

theorem Value.add_ofOperator (a b : Value) : (a.add b).OfOperator (MadeOf a b) := by
  unfold Value.add
  split
  · exact ⟨rfl, fun _ h => nomatch h⟩
  · exact rfl
  · exact ⟨rfl, fun _ => List.mem_append.1⟩
  · exact rfl
  · exact ⟨rfl, fun _ => List.mem_append.1⟩
  · exact rfl
  · exact ⟨rfl, fun _ h => nomatch h⟩
  · exact rfl
  · split
    · exact Number.combine_ofOperator (.int a b) (.float a b) ..
    · exact rfl

theorem Value.sub_ofOperator (a b : Value) : (a.sub b).OfOperator (MadeOf a b) := by
  unfold Value.sub
  split
  · exact ⟨rfl, fun w hw => .inl (List.mem_filter.1 hw).1⟩
  · split
    · exact Number.combine_ofOperator (.int a b) (.float a b) ..
    · exact rfl

theorem repeatCount_ofOperator {overlong : Failure} (h : overlong.isOfOperator = true)
    (length : Nat) (count : Int) :
    (repeatCount overlong length count).OfOperator fun _ => True := by
  unfold repeatCount
  split
  · exact rfl
  · split
    · exact trivial
    · split
      · exact h
      · split
        · exact rfl
        · exact trivial

theorem mem_of_mem_repeated {count : Nat} {items : List Value} {w : Value}
    (h : w ∈ repeated count items) : w ∈ items := by
  obtain ⟨copy, hcopy, hw⟩ := List.mem_flatten.1 h
  rwa [List.eq_of_mem_replicate hcopy] at hw

theorem Value.repeat?_ofOperator {v : Value} {count : Int} {result : Result Value} (b : Value)
    (h : v.repeat? count = some result) : result.OfOperator (MadeOf v b) := by
  cases v with
  | str s =>
    cases h
    exact (repeatCount_ofOperator rfl ..).bind fun _ _ => ⟨rfl, fun _ h => nomatch h⟩
  | list items =>
    cases h
    exact (repeatCount_ofOperator rfl ..).bind fun _ _ =>
      ⟨rfl, fun _ hw => .inl (mem_of_mem_repeated hw)⟩
  | tuple items =>
    cases h
    exact (repeatCount_ofOperator rfl ..).bind fun _ _ =>
      ⟨rfl, fun _ hw => .inl (mem_of_mem_repeated hw)⟩
  | bytes octets =>
    cases h
    exact (repeatCount_ofOperator rfl ..).bind fun _ _ => ⟨rfl, fun _ h => nomatch h⟩
  | _ => cases h

theorem Value.times_ofOperator (sequence count : Value) :
    (sequence.times count).OfOperator (MadeOf sequence count) := by
  unfold Value.times
  cases count.integer? with
  | none => exact rfl
  | some n =>
    show ((sequence.repeat? n).getD _).OfOperator _
    cases h : sequence.repeat? n with
    | none => exact rfl
    | some result => exact repeat?_ofOperator count h

theorem Value.mul_ofOperator (a b : Value) : (a.mul b).OfOperator (MadeOf a b) := by
  unfold Value.mul
  split
  · exact Number.combine_ofOperator (.int a b) (.float a b) ..
  · split
    · exact a.times_ofOperator b
    · split
      · have h := b.times_ofOperator a
        cases hresult : b.times a with
        | error failure =>
          rw [hresult] at h
          exact h
        | ok v =>
          rw [hresult] at h
          exact Value.MadeOf.comm h
      · exact rfl

theorem Value.real_ofOperator (v : Value) : v.real.OfOperator fun _ => True := by
  unfold Value.real
  cases v.number? with
  | none => exact rfl
  | some n => exact n.toFloat_ofOperator

theorem Value.div_ofOperator (a b : Value) : (a.div b).OfOperator (MadeOf a b) := by
  unfold Value.div
  split
  · exact .ite (MadeOf.float a b _) (a.real_ofOperator.bind fun p _ =>
      b.real_ofOperator.bind fun q _ => MadeOf.float a b _)
  · split
    · unfold quotient
      split
      · exact .float a b _
      · exact rfl
    · rename_i x y _ _ _
      exact x.toFloat_ofOperator.bind fun p _ =>
        y.toFloat_ofOperator.bind fun q _ => MadeOf.float a b _
    · exact rfl

theorem ArithmeticOp.apply_ofOperator (op : ArithmeticOp) (a b : Value) :
    (op.apply a b).OfOperator (Value.MadeOf a b) := by
  cases op with
  | add => exact a.add_ofOperator b
  | sub => exact a.sub_ofOperator b
  | mul => exact a.mul_ofOperator b
  | div => exact a.div_ofOperator b

/-- What an operator keeps, it keeps when it combines operands one after the other. -/
theorem ArithmeticOp.fold_ofOperator {P : Value → Prop} (op : ArithmeticOp)
    (hP : ∀ a b v, P a → P b → Value.MadeOf a b v → P v) {operands : List Value}
    (hoperands : ∀ v ∈ operands, P v) (hne : operands ≠ []) : (op.fold operands).OfOperator P := by
  cases operands with
  | nil => exact absurd rfl hne
  | cons v rest =>
    obtain ⟨hv, hrest⟩ := List.forall_mem_cons.1 hoperands
    show (rest.foldlM op.apply v).OfOperator P
    clear hoperands hne
    induction rest generalizing v with
    | nil => exact hv
    | cons w rest ih =>
      obtain ⟨hw, hrest⟩ := List.forall_mem_cons.1 hrest
      rw [List.foldlM_cons]
      exact (op.apply_ofOperator v w).bind fun u hu => ih u (hP v w u hv hw hu) hrest

/-! ## Comparison -/

theorem OrderOp.onScalars_ofOperator (op : OrderOp) (a b : Value) :
    (op.onScalars a b).OfOperator fun _ => True := by
  unfold onScalars
  split
  · exact trivial
  · exact trivial
  · exact trivial
  · unfold onTimes
    split
    · exact rfl
    · exact trivial
  · exact rfl
  · exact rfl
  · exact trivial
  · split
    · exact trivial
    · exact rfl

mutual

theorem OrderOp.holds_ofOperator (op : OrderOp) : ∀ a b : Value,
    (op.holds a b).OfOperator fun _ => True
  | a, b => by
    have hscalars := op.onScalars_ofOperator a b
    cases a with
    | list as =>
      cases b with
      | list bs => exact OrderOp.holdsItems_ofOperator op as bs
      | _ => exact hscalars
    | tuple as =>
      cases b with
      | tuple bs => exact OrderOp.holdsItems_ofOperator op as bs
      | _ => exact hscalars
    | _ => exact hscalars
termination_by structural a => a

theorem OrderOp.holdsItems_ofOperator (op : OrderOp) : ∀ as bs : List Value,
    (op.holdsItems as bs).OfOperator fun _ => True
  | [], _ => trivial
  | _ :: _, [] => trivial
  | a :: as, b :: bs => by
    rw [OrderOp.holdsItems]
    split
    · exact OrderOp.holdsItems_ofOperator op as bs
    · exact OrderOp.holds_ofOperator op a b
termination_by structural as => as

end

theorem ComparisonOp.holds_ofOperator (op : ComparisonOp) (a b : Value) :
    (op.holds a b).OfOperator fun _ => True := by
  cases op with
  | eq | ne => exact trivial
  | lt | gt | le | ge => exact OrderOp.holds_ofOperator _ a b

theorem ComparisonOp.chain_ofOperator (op : ComparisonOp) (operands : List Value) :
    (op.chain operands).OfOperator fun _ => True := by
  induction operands with
  | nil => exact trivial
  | cons a rest ih =>
    cases rest with
    | nil => exact trivial
    | cons b rest =>
      refine (op.holds_ofOperator a b).bind fun holds _ => ?_
      cases holds with
      | false => exact trivial
      | true => exact ih

end TreeScript
