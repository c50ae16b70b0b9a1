import TreeScript.Proofs.Renaming

/-!
# Operations on renamed values

Equality, keys, arithmetic and order do not look at the references of closures. What they give for
renamed values is what they give for the values themselves, renamed (`apply_rename`), or the same
where the answer is a truth value (`equal_rename`, `holds_rename`).
-/

namespace TreeScript

section

variable (g : ScopeRef → ScopeRef)

@[simp]
theorem Expr.kindName_rename (e : Expr) : (rename g e).kindName = e.kindName := by
  cases e <;> rfl

@[simp]
theorem Expr.callName_rename (e : Expr) : (rename g e).callName = e.callName := by
  cases e <;> rfl

@[simp]
theorem Expr.calleeName_rename (e : Expr) : (rename g e).calleeName = e.calleeName := by
  cases e <;> rfl

@[simp]
theorem Value.qualifiedKindName_rename (v : Value) :
    (rename g v).qualifiedKindName = v.qualifiedKindName := by
  cases v with
  | node e => exact e.kindName_rename g
  | _ => rfl

@[simp]
theorem Value.number?_rename (v : Value) : (rename g v).number? = v.number? := by
  cases v <;> rfl

@[simp]
theorem Value.isNull_rename (v : Value) : (rename g v).isNull = v.isNull := by
  cases v <;> rfl

@[simp]
theorem Value.truth_rename (v : Value) : (rename g v).truth = v.truth := by
  cases v <;> simp [Value.truth]

@[simp]
theorem Value.isTruthy_rename (v : Value) : (rename g v).isTruthy = v.isTruthy := by
  cases v <;> rfl

mutual

theorem Value.unhashable?_rename : ∀ v : Value, (rename g v).unhashable? = v.unhashable?
  | .tuple items => by
    rw [rename_tuple, Value.unhashable?, Value.unhashable?]
    exact unhashableItem?_rename items
  | .node e => by simp [Value.unhashable?]
  | .null | .bool _ | .int _ | .float _ | .str _ | .list _ | .map _ | .set _ | .bytes _ | .date _
  | .datetime _ | .undefined | .closure .. | .literal _ | .env _ | .object _ => by
    simp [Value.unhashable?]
termination_by structural v => v

theorem unhashableItem?_rename : ∀ vs : List Value,
    unhashableItem? (rename g vs) = unhashableItem? vs
  | [] => rfl
  | v :: rest => by
    rw [rename_cons, unhashableItem?, unhashableItem?, Value.unhashable?_rename v,
      unhashableItem?_rename rest]
termination_by structural vs => vs

end

@[simp]
theorem Value.checkKey_rename (v : Value) : (rename g v).checkKey = v.checkKey := by
  rw [Value.checkKey, Value.checkKey, Value.unhashable?_rename]

end

/-! ## Equality -/

section

variable (g g' : ScopeRef → ScopeRef)

theorem Value.sameNaN_rename (a b : Value) :
    Value.sameNaN (rename g a) (rename g' b) = Value.sameNaN a b := by
  cases a <;> cases b <;> rfl

theorem Number.equalValue_rename (n : Number) (v : Value) :
    n.equalValue (rename g v) = n.equalValue v := by
  rw [Number.equalValue, Number.equalValue, Value.number?_rename]

theorem any_rename {α : Type} [Renames α] (test test' : α → Bool) (bs : List α)
    (h : ∀ b, test (rename g' b) = test' b) : (rename g' bs).any test = bs.any test' := by
  rw [show rename g' bs = bs.map (rename g') from rfl, List.any_map]
  exact congrArg bs.any (funext h)

mutual

/-- Equality does not look at references at all. -/
theorem Value.equal_rename : ∀ a b : Value,
    Value.equal (rename g a) (rename g' b) = Value.equal a b
  | .list as, b => by
    have h := equalItems_rename as
    cases b <;> simp [Value.equal, h]
  | .tuple as, b => by
    have h := equalItems_rename as
    cases b <;> simp [Value.equal, h]
  | .map as, b => by
    have h := entriesWithin_rename as
    cases b <;> simp [Value.equal, h]
  | .env as, b => by
    have h := entriesWithin_rename as
    cases b <;> simp [Value.equal, h]
  | .object as, b => by
    have h := entriesWithin_rename as
    cases b <;> simp [Value.equal, h]
  | .set as, b => by
    have h := itemsWithin_rename as
    cases b <;> simp [Value.equal, h]
  | .closure _ inputs e, b => by
    have h := Expr.equal_rename e
    cases b <;> simp [Value.equal, h]
  | .node e, b => by
    have h := Expr.equal_rename e
    cases b <;> simp [Value.equal, h]
  | .literal v, b => by
    have h := Value.equal_rename v
    cases b <;> simp [Value.equal, h]
  | .bool _, b | .int _, b | .float _, b => by
    simp [Value.equal, Number.equalValue_rename]
  | .null, b | .str _, b | .bytes _, b | .date _, b | .datetime _, b | .undefined, b => by
    cases b <;> simp [Value.equal]
termination_by structural a => a

theorem equalItems_rename : ∀ as bs : List Value,
    equalItems (rename g as) (rename g' bs) = equalItems as bs
  | [], bs => by cases bs <;> simp [equalItems]
  | a :: as, bs => by
    have ha := Value.equal_rename a
    have has := equalItems_rename as
    cases bs <;> simp [equalItems, Value.sameNaN_rename, ha, has]
termination_by structural as => as

theorem itemsWithin_rename : ∀ as bs : List Value,
    itemsWithin (rename g as) (rename g' bs) = itemsWithin as bs
  | [], bs => by simp [itemsWithin]
  | a :: as, bs => by
    rw [rename_cons, itemsWithin, itemsWithin, itemsWithin_rename as,
      any_rename g' _ _ bs fun b => by rw [Value.sameNaN_rename, Value.equal_rename a]]
termination_by structural as => as

theorem entriesWithin_rename : ∀ as bs : List (Value × Value),
    entriesWithin (rename g as) (rename g' bs) = entriesWithin as bs
  | [], bs => by simp [entriesWithin]
  | (k, v) :: rest, bs => by
    have hany : (rename g' bs).any (fun b =>
        (Value.sameNaN (rename g k) b.1 || Value.equal (rename g k) b.1) &&
          (Value.sameNaN (rename g v) b.2 || Value.equal (rename g v) b.2)) =
        bs.any fun b => (Value.sameNaN k b.1 || Value.equal k b.1) &&
          (Value.sameNaN v b.2 || Value.equal v b.2) := by
      refine any_rename g' _ _ bs fun b => ?_
      rw [show rename g' b = (rename g' b.1, rename g' b.2) from rfl, Value.sameNaN_rename,
        Value.sameNaN_rename, Value.equal_rename k, Value.equal_rename v]
    rw [rename_cons, rename_pair, entriesWithin, entriesWithin, entriesWithin_rename rest, hany]
termination_by structural as => as

theorem Expr.equal_rename : ∀ a b : Expr, Expr.equal (rename g a) (rename g' b) = Expr.equal a b
  | .number _, b | .string _, b | .boolean _, b | .variable _, b => by
    cases b <;> simp [Expr.equal]
  | .arithmetic _ as, b => by
    have h := equalExprs_rename as
    cases b <;> simp [Expr.equal, h]
  | .comparison _ as, b => by
    have h := equalExprs_rename as
    cases b <;> simp [Expr.equal, h]
  | .conditional c t f, b => by
    have hc := Expr.equal_rename c
    have ht := Expr.equal_rename t
    have hf := Expr.equal_rename f
    cases b <;> simp [Expr.equal, hc, ht, hf]
  | .procedure _ e, b => by
    have h := Expr.equal_rename e
    cases b <;> simp [Expr.equal, h]
  | .call e as, b => by
    have he := Expr.equal_rename e
    have has := equalExprs_rename as
    cases b <;> simp [Expr.equal, he, has]
  | .definition _ e, b => by
    have h := Expr.equal_rename e
    cases b <;> simp [Expr.equal, h]
  | .effect _ args _ next, b => by
    have hargs := argsWithin_rename args
    have hnext := equalNext_rename next
    cases b <;> simp [Expr.equal, hargs, hnext]
  | .block as, b => by
    have h := equalExprs_rename as
    cases b <;> simp [Expr.equal, h]
termination_by structural a => a

theorem equalExprs_rename : ∀ as bs : List Expr,
    equalExprs (rename g as) (rename g' bs) = equalExprs as bs
  | [], bs => by cases bs <;> simp [equalExprs]
  | a :: as, bs => by
    have ha := Expr.equal_rename a
    have has := equalExprs_rename as
    cases bs <;> simp [equalExprs, ha, has]
termination_by structural as => as

theorem equalNext_rename : ∀ a b : Option Expr,
    equalNext (rename g a) (rename g' b) = equalNext a b
  | none, b => by cases b <;> simp [equalNext]
  | some e, b => by
    have h := Expr.equal_rename e
    cases b <;> simp [equalNext, h]
termination_by structural a => a

theorem argsWithin_rename : ∀ as bs : List (Value × Arg),
    argsWithin (rename g as) (rename g' bs) = argsWithin as bs
  | [], bs => by simp [argsWithin]
  | (k, a) :: rest, bs => by
    have hany : (rename g' bs).any (fun b =>
        Value.equal (rename g k) b.1 && Arg.equal (rename g a) b.2) =
        bs.any fun b => Value.equal k b.1 && Arg.equal a b.2 := by
      refine any_rename g' _ _ bs fun b => ?_
      rw [show rename g' b = (rename g' b.1, rename g' b.2) from rfl, Value.equal_rename k,
        Arg.equal_rename a]
    rw [rename_cons, rename_pair, argsWithin, argsWithin, argsWithin_rename rest, hany]
termination_by structural as => as

theorem Arg.equal_rename : ∀ a b : Arg, Arg.equal (rename g a) (rename g' b) = Arg.equal a b
  | .literal v, b => by
    have h := Value.equal_rename v
    cases b <;> simp [Arg.equal, Value.sameNaN_rename, h]
  | .expr e, b => by
    have h := Expr.equal_rename e
    cases b <;> simp [Arg.equal, h]
termination_by structural a => a

end

theorem Value.alike_rename (a b : Value) :
    Value.alike (rename g a) (rename g' b) = Value.alike a b := by
  rw [Value.alike, Value.alike, Value.sameNaN_rename, Value.equal_rename]

end

/-! ## Bindings -/

section

variable (g : ScopeRef → ScopeRef)

theorem Bindings.lookup?_rename (bs : Bindings) (key : Value) :
    Bindings.lookup? (rename g bs) (rename g key) = rename g (bs.lookup? key) := by
  induction bs with
  | nil => rfl
  | cons b rest ih =>
    unfold Bindings.lookup? at ih ⊢
    have halike : Value.alike (rename g key) (rename g b).1 = Value.alike key b.1 :=
      Value.alike_rename g g key b.1
    rw [rename_cons, List.find?_cons, List.find?_cons, halike]
    cases Value.alike key b.1 with
    | true => rfl
    | false => exact ih

theorem Bindings.get?_rename (bs : Bindings) (name : String) :
    Bindings.get? (rename g bs) name = rename g (bs.get? name) :=
  Bindings.lookup?_rename g bs (.str name)

theorem Bindings.put_rename (bs : Bindings) (key value : Value) :
    Bindings.put (rename g bs) (rename g key) (rename g value) =
      rename g (bs.put key value) := by
  induction bs with
  | nil => rfl
  | cons b rest ih =>
    obtain ⟨k, v⟩ := b
    rw [rename_cons, rename_pair, Bindings.put, Bindings.put, Value.alike_rename, ih]
    cases Value.alike key k <;> rfl

theorem Bindings.ofPairs_rename (pairs : Bindings) :
    Bindings.ofPairs (rename g pairs) = rename g (Bindings.ofPairs pairs) := by
  suffices h : ∀ acc : Bindings,
      Bindings.putAll (rename g acc) (rename g pairs) = rename g (acc.putAll pairs) from h []
  induction pairs with
  | nil => exact fun acc => rfl
  | cons p rest ih =>
    intro acc
    have hput := Bindings.put_rename g acc p.1 p.2
    show Bindings.putAll (Bindings.put (rename g acc) (rename g p.1) (rename g p.2))
      (rename g rest) =
      rename g ((acc.put p.1 p.2).putAll rest)
    rw [hput, ih]

theorem Environment.lookup_rename (env : Environment) (name : String) :
    (rename g env).lookup name = rename g (env.lookup name) := by
  have hfind : (rename g env).find? (.str name) = rename g (env.find? (.str name)) :=
    Bindings.lookup?_rename g env.bindings (.str name)
  unfold Environment.lookup
  rw [hfind]
  cases env.find? (.str name) with
  | none => rfl
  | some v => cases v <;> rfl

theorem Environment.extend_rename (env : Environment) (name : String) (v : Value) :
    (rename g env).extend name (rename g v) = rename g (env.extend name v) :=
  congrArg Environment.mk (Bindings.put_rename g env.bindings (.str name) v)

theorem Environment.extendMany_rename (env : Environment) (pairs : List (String × Value)) :
    (rename g env).extendMany (rename g pairs) = rename g (env.extendMany pairs) := by
  induction pairs generalizing env with
  | nil => rfl
  | cons p rest ih =>
    have hextend := env.extend_rename g p.1 p.2
    show ((rename g env).extend p.1 (rename g p.2)).extendMany (rename g rest) =
      rename g ((env.extend p.1 p.2).extendMany rest)
    rw [hextend, ih]

theorem bindInputs_rename (inputs : List String) (values : List Value) :
    bindInputs inputs (rename g values) = rename g (bindInputs inputs values) := by
  induction inputs generalizing values with
  | nil => rfl
  | cons name rest ih =>
    cases values with
    | nil =>
      have hrest : bindInputs rest [] = rename g (bindInputs rest []) := ih []
      exact congrArg ((name, Value.undefined) :: ·) hrest
    | cons v vs =>
      rw [rename_cons, bindInputs, ih]
      rfl

/-! ## Arithmetic -/

/-- Two binary64 numbers combined to another one. -/
theorem rename_floats (x y : Result Binary64) (f : Binary64 → Binary64 → Binary64) :
    rename g (do
        let p ← x
        let q ← y
        pure (Value.float (f p q)) : Result Value) = (do
      let p ← x
      let q ← y
      pure (.float (f p q))) := by
  cases x with
  | error failure => rfl
  | ok p => cases y <;> rfl

theorem Number.rename_combine (onInts : Int → Int → Int)
    (onFloats : Binary64 → Binary64 → Binary64) (x y : Number) :
    rename g (Number.combine onInts onFloats x y) = Number.combine onInts onFloats x y := by
  unfold Number.combine
  split
  next => rfl
  next => exact rename_floats g _ _ _

theorem unsupported_rename (op : ArithmeticOp) (a b : Value) :
    unsupported op (rename g a) (rename g b) = unsupported op a b := by
  simp [unsupported]

/-- What an operator makes of two values that are numbers. -/
def numeric (op : ArithmeticOp) (onInts : Int → Int → Int)
    (onFloats : Binary64 → Binary64 → Binary64) (a b : Value) : Result Value :=
  match a.number?, b.number? with
  | some x, some y => Number.combine onInts onFloats x y
  | _, _ => throw (unsupported op a b)

theorem numeric_rename (op : ArithmeticOp) (onInts : Int → Int → Int)
    (onFloats : Binary64 → Binary64 → Binary64) (a b : Value) :
    numeric op onInts onFloats (rename g a) (rename g b) =
      rename g (numeric op onInts onFloats a b) := by
  unfold numeric
  rw [Value.number?_rename, Value.number?_rename, unsupported_rename]
  split
  next => rw [Number.rename_combine]
  next => rfl

@[simp]
theorem Value.isSequence_rename (v : Value) : (rename g v).isSequence = v.isSequence := by
  cases v <;> rfl

theorem Value.add_eq_numeric {a : Value} (h : a.isSequence = false) (b : Value) :
    a.add b = numeric .add (· + ·) Binary64.add a b := by
  cases a with
  | str | list | tuple | bytes => cases h
  | _ => rfl

theorem Value.add_rename (a b : Value) :
    Value.add (rename g a) (rename g b) = rename g (Value.add a b) := by
  cases h : a.isSequence with
  | false =>
    rw [Value.add_eq_numeric h, Value.add_eq_numeric (by rw [Value.isSequence_rename, h]),
      numeric_rename]
  | true =>
    cases a with
    | str | list | tuple | bytes =>
      cases b <;> simp [Value.add, Value.qualifiedKindName, Value.kindName]
    | _ => cases h

/-- The elements of a set that are in no other one. -/
theorem without_rename (as bs : List Value) :
    (rename g as).filter (fun x => !(rename g bs).any (Value.alike x)) =
      rename g (as.filter fun x => !bs.any (Value.alike x)) := by
  rw [show rename g as = as.map (rename g) from rfl, List.filter_map]
  refine congrArg (List.map (rename g)) (List.filter_congr fun x _ => ?_)
  rw [Function.comp_apply, any_rename g _ _ bs fun b => Value.alike_rename g g x b]

theorem Value.sub_rename (a b : Value) :
    Value.sub (rename g a) (rename g b) = rename g (Value.sub a b) := by
  have hnumeric := numeric_rename g .sub (· - ·) Binary64.sub a b
  cases a with
  | set as =>
    cases b with
    | set bs =>
      rw [rename_set, rename_set, Value.sub, Value.sub, without_rename, Result.pure_eq_ok,
        Result.pure_eq_ok, rename_ok, rename_set]
    | _ => exact hnumeric
  | _ => exact hnumeric

theorem repeated_rename (count : Nat) (items : List Value) :
    repeated count (rename g items) = rename g (repeated count items) := by
  unfold repeated
  rw [show rename g (List.replicate count items).flatten =
    (List.replicate count items).flatten.map (rename g) from rfl, List.map_flatten,
    List.map_replicate]
  rfl

theorem Value.repeat?_rename (v : Value) (count : Int) :
    (rename g v).repeat? count = (v.repeat? count).map (rename g) := by
  cases v with
  | str s =>
    simp only [rename_str, Value.repeat?, Option.map_some, Option.some.injEq]
    cases repeatCount (.overflow "repeated string is too long") s.length count <;> rfl
  | list items =>
    simp only [rename_list, Value.repeat?, Option.map_some, Option.some.injEq, length_rename,
      repeated_rename]
    cases repeatCount (.raised "MemoryError" "") items.length count <;> simp
  | tuple items =>
    simp only [rename_tuple, Value.repeat?, Option.map_some, Option.some.injEq, length_rename,
      repeated_rename]
    cases repeatCount (.raised "MemoryError" "") items.length count <;> simp
  | bytes bs =>
    simp only [rename_bytes, Value.repeat?, Option.map_some, Option.some.injEq]
    cases repeatCount (.overflow "repeated bytes are too long") bs.length count <;> rfl
  | _ => rfl

theorem Value.times_rename (sequence count : Value) :
    (rename g sequence).times (rename g count) = rename g (sequence.times count) := by
  have hinteger : (rename g count).integer? = count.integer? := by
    cases count <;> rfl
  unfold Value.times
  rw [hinteger, Value.qualifiedKindName_rename, unsupported_rename]
  cases count.integer? with
  | none => rfl
  | some n =>
    simp only [Value.repeat?_rename]
    cases sequence.repeat? n <;> rfl

theorem Value.mul_rename (a b : Value) :
    Value.mul (rename g a) (rename g b) = rename g (Value.mul a b) := by
  unfold Value.mul
  rw [Value.number?_rename, Value.number?_rename, Value.isSequence_rename, Value.isSequence_rename,
    unsupported_rename, Value.times_rename, Value.times_rename]
  split
  next => rw [Number.rename_combine]
  next =>
    split
    next => rfl
    next => split <;> rfl

theorem Value.real_rename (v : Value) : (rename g v).real = v.real := by
  unfold Value.real
  rw [Value.number?_rename, Value.qualifiedKindName_rename]

/-- Whether a value is not a number, or zero. -/
def Value.isUndivided (v : Value) : Bool :=
  (match v with
    | .float x => x.isNaN
    | _ => false) || Value.equal v (.int 0)

theorem Value.isUndivided_rename (v : Value) : (rename g v).isUndivided = v.isUndivided := by
  have hzero : Value.equal (rename g v) (.int 0) = Value.equal v (.int 0) :=
    Value.equal_rename g g v (.int 0)
  unfold Value.isUndivided
  rw [hzero]
  cases v <;> rfl

theorem Value.divZero_eq (a b : Value) :
    a.divZero b = if a.isUndivided then pure (.float .undefinedQuotient) else (do
      let x ← a.real
      let y ← b.real
      pure (.float (.infinite (x.isNegative != y.isNegative)))) := rfl

theorem Value.divZero_rename (a b : Value) :
    (rename g a).divZero (rename g b) = rename g (a.divZero b) := by
  rw [Value.divZero_eq, Value.divZero_eq, Value.isUndivided_rename, Value.real_rename,
    Value.real_rename]
  split
  next => rfl
  next => exact (rename_floats g _ _ _).symm

theorem rename_quotient (x y : Int) : rename g (quotient x y) = quotient x y := by
  unfold quotient
  split <;> rfl

theorem Value.div_rename (a b : Value) :
    Value.div (rename g a) (rename g b) = rename g (Value.div a b) := by
  have hzero : Value.equal (rename g b) (.int 0) = Value.equal b (.int 0) :=
    Value.equal_rename g g b (.int 0)
  unfold Value.div
  rw [hzero, Value.divZero_rename, Value.number?_rename, Value.number?_rename, unsupported_rename]
  split
  next => rfl
  next =>
    split
    next => rw [rename_quotient]
    next => exact (rename_floats g _ _ _).symm
    next => rfl

/-- An operator gives the same for renamed operands, renamed. -/
theorem ArithmeticOp.apply_rename (op : ArithmeticOp) (a b : Value) :
    op.apply (rename g a) (rename g b) = rename g (op.apply a b) := by
  cases op with
  | add => exact Value.add_rename g a b
  | sub => exact Value.sub_rename g a b
  | mul => exact Value.mul_rename g a b
  | div => exact Value.div_rename g a b

theorem ArithmeticOp.fold_rename (op : ArithmeticOp) (values : List Value) :
    op.fold (rename g values) = rename g (op.fold values) := by
  cases values with
  | nil => rfl
  | cons v rest =>
    show (rename g rest).foldlM op.apply (rename g v) = rename g (rest.foldlM op.apply v)
    induction rest generalizing v with
    | nil => rfl
    | cons w rest ih =>
      rw [rename_cons, List.foldlM_cons, List.foldlM_cons, op.apply_rename]
      cases op.apply v w with
      | error failure => rfl
      | ok u => exact ih u

/-! ## Order -/

theorem setWithin_rename (as bs : List Value) :
    setWithin (rename g as) (rename g bs) = setWithin as bs := by
  unfold setWithin
  rw [show rename g as = as.map (rename g) from rfl, List.all_map]
  refine congrArg as.all (funext fun a => ?_)
  exact any_rename g _ _ bs fun b => Value.alike_rename g g a b

theorem OrderOp.onSets_rename (op : OrderOp) (as bs : List Value) :
    op.onSets (rename g as) (rename g bs) = op.onSets as bs := by
  cases op <;> simp [OrderOp.onSets, setWithin_rename]

/-- Whether an order holds between two values that are numbers. -/
def OrderOp.numeric (op : OrderOp) (a b : Value) : Result Bool :=
  match a.number?, b.number? with
  | some x, some y => pure (op.onNumbers x y)
  | _, _ => throw (noOrder op a b)

theorem OrderOp.numeric_rename (op : OrderOp) (a b : Value) :
    op.numeric (rename g a) (rename g b) = op.numeric a b := by
  simp [OrderOp.numeric, noOrder]

theorem OrderOp.onScalars_rename (op : OrderOp) (a b : Value) :
    op.onScalars (rename g a) (rename g b) = op.onScalars a b := by
  have hnumeric := op.numeric_rename g a b
  cases a with
  | str | bytes =>
    cases b with
    | str | bytes => rfl
    | _ => exact hnumeric
  | date | datetime =>
    cases b with
    | date | datetime => rfl
    | _ => exact hnumeric
  | set as =>
    cases b with
    | set bs =>
      rw [rename_set, rename_set, OrderOp.onScalars, OrderOp.onScalars, OrderOp.onSets_rename]
    | _ => exact hnumeric
  | _ => exact hnumeric

mutual

theorem OrderOp.holds_rename (op : OrderOp) : ∀ a b : Value,
    op.holds (rename g a) (rename g b) = op.holds a b
  | a, b => by
    have hscalars := op.onScalars_rename g a b
    cases a with
    | list as =>
      have hitems := OrderOp.holdsItems_rename op as
      cases b with
      | list bs => rw [rename_list, rename_list, OrderOp.holds, OrderOp.holds, hitems]
      | _ => exact hscalars
    | tuple as =>
      have hitems := OrderOp.holdsItems_rename op as
      cases b with
      | tuple bs => rw [rename_tuple, rename_tuple, OrderOp.holds, OrderOp.holds, hitems]
      | _ => exact hscalars
    | _ => exact hscalars
termination_by structural a => a

theorem OrderOp.holdsItems_rename (op : OrderOp) : ∀ as bs : List Value,
    op.holdsItems (rename g as) (rename g bs) = op.holdsItems as bs
  | [], bs => by rw [rename_nil, OrderOp.holdsItems, OrderOp.holdsItems, length_rename]
  | a :: as, bs => by
    have ha := OrderOp.holds_rename op a
    have has := OrderOp.holdsItems_rename op as
    cases bs with
    | nil => rw [rename_cons, rename_nil, OrderOp.holdsItems, OrderOp.holdsItems, length_rename]
    | cons b bs =>
      rw [rename_cons, rename_cons, OrderOp.holdsItems, OrderOp.holdsItems, Value.alike_rename, ha,
        has]
termination_by structural as => as

end

theorem Value.same_rename (a b : Value) : (rename g a).same (rename g b) = a.same b := by
  have hbool : ∀ v : Value, (rename g v).isBool = v.isBool := by
    intro v
    cases v <;> rfl
  rw [Value.same, Value.same, Value.equal_rename, hbool, hbool]

/-- A comparison gives the same answer for renamed values. -/
theorem ComparisonOp.holds_rename (op : ComparisonOp) (a b : Value) :
    op.holds (rename g a) (rename g b) = op.holds a b := by
  cases op with
  | eq | ne => simp [ComparisonOp.holds, Value.same_rename]
  | lt | gt | le | ge => exact OrderOp.holds_rename g _ a b

theorem ComparisonOp.chain_rename (op : ComparisonOp) (values : List Value) :
    op.chain (rename g values) = op.chain values := by
  induction values with
  | nil => rfl
  | cons a rest ih =>
    cases rest with
    | nil => rfl
    | cons b rest =>
      rw [rename_cons, rename_cons, ComparisonOp.chain, ComparisonOp.chain, op.holds_rename]
      rw [rename_cons] at ih
      rw [ih]

end

end TreeScript
