import TreeScript.Proofs.Safety
import TreeScript.Proofs.WireFormat

/-!
# What the decoder lets through

Where a program is expected the decoder lets a list of programs through. It becomes a block, which
is no program: it can neither be evaluated nor written as a tree. The verdict on the tree does not
tell.

`Value.children` lists the values that stand in a tree where a program is expected, and
`Value.Single` says that, at whatever depth, none of them is a list. The main statement
`validated_iff_single` is that a tree which passes the check is decoded to a well-formed program,
and to one that can be written, exactly if it is single. In this case it is evaluated without coming
to a part that is no program.

The decoder is opened once, in `decodes_children`: the programs that a decoded program is directly
made of are those that it has read, one by one and in their order, and what it has checked by itself
holds (`Expr.locallySound`). Everything else is by induction on the tree.
-/

namespace TreeScript

/-! ## Programs and the programs they are made of -/

/-- The programs that a program is directly made of. -/
def Expr.children : Expr → List Expr
  | .arithmetic _ operands => operands
  | .comparison _ operands => operands
  | .conditional condition onTrue onFalse => [condition, onTrue, onFalse]
  | .procedure _ body => [body]
  | .call callee arguments => callee :: arguments
  | .definition _ value => [value]
  | .effect _ args _ next => argExprs args ++ next.toList
  | .block items => items
  | _ => []

/-- Whether a program is well-formed if those it is made of are. -/
def Expr.locallySound : Expr → Bool
  | .variable key => key != ""
  | .arithmetic _ operands => 2 ≤ operands.length
  | .comparison _ operands => 2 ≤ operands.length
  | .procedure inputs _ => inputs.all (· != "")
  | .call callee _ => (checkCallee callee).isOk
  | .definition key _ => key != ""
  | .effect name _ bind _ => name != "" && bind.all (· != "")
  | .block _ => false
  | _ => true

theorem wellFormedAll_iff {es : List Expr} :
    wellFormedAll es = true ↔ ∀ e ∈ es, e.wellFormed = true := by
  induction es with
  | nil => simp [wellFormedAll]
  | cons e rest ih => simp [wellFormedAll, ih]

theorem wellFormedArgs_iff {args : List (Value × Arg)} :
    wellFormedArgs args = true ↔ ∀ e ∈ argExprs args, e.wellFormed = true := by
  induction args with
  | nil => simp [wellFormedArgs, argExprs]
  | cons entry rest ih =>
    obtain ⟨key, arg⟩ := entry
    cases arg with
    | literal v => simpa [wellFormedArgs, Arg.wellFormed, argExprs] using ih
    | expr e => simpa [wellFormedArgs, Arg.wellFormed, argExprs] using fun _ => ih

theorem Expr.wellFormed_iff {e : Expr} :
    e.wellFormed = true ↔ e.locallySound = true ∧ ∀ c ∈ e.children, c.wellFormed = true := by
  cases e with
  | effect name args bind next =>
    have hnext : wellFormedNext next = true ↔ ∀ e ∈ next.toList, e.wellFormed = true := by
      cases next <;> simp [wellFormedNext]
    simp only [wellFormed, locallySound, children, Bool.and_eq_true, List.forall_mem_append,
      wellFormedArgs_iff, hnext]
    constructor
    · rintro ⟨⟨⟨hname, hargs⟩, hbind⟩, hnext⟩
      exact ⟨⟨hname, hbind⟩, hargs, hnext⟩
    · rintro ⟨⟨hname, hbind⟩, hargs, hnext⟩
      exact ⟨⟨⟨hname, hargs⟩, hbind⟩, hnext⟩
  | _ => simp [wellFormed, locallySound, children, wellFormedAll_iff, and_assoc]

theorem mem_argExprs {args : List (Value × Arg)} {e : Expr} :
    e ∈ argExprs args ↔ ∃ key, (key, Arg.expr e) ∈ args := by
  unfold argExprs
  rw [List.mem_filterMap]
  constructor
  · rintro ⟨⟨key, arg⟩, hmem, harg⟩
    cases arg with
    | literal v => cases harg
    | expr e' =>
      cases harg
      exact ⟨key, hmem⟩
  · rintro ⟨key, hmem⟩
    exact ⟨_, hmem, rfl⟩

theorem Expr.evaluable_of_children {e : Expr} (hlocal : e.locallySound = true)
    (h : ∀ c ∈ e.children, c.evaluable = true) : e.evaluable = true := by
  cases e with
  | effect name args bind next =>
    rw [children, List.forall_mem_append] at h
    rw [evaluable, Bool.and_eq_true]
    constructor
    · refine evaluableArgs_iff.2 fun entry hentry => ?_
      obtain ⟨key, arg⟩ := entry
      cases arg with
      | literal v => rfl
      | expr e =>
        rw [Arg.evaluable]
        exact h.1 e (mem_argExprs.2 ⟨key, hentry⟩)
    · cases next with
      | none => rfl
      | some e =>
        rw [evaluableNext]
        exact h.2 e List.mem_cons_self
  | block items => cases hlocal
  | _ => simp_all [evaluable, locallySound, children, evaluableAll_iff]

theorem Expr.sizeOf_lt_of_mem_children {e c : Expr} (h : c ∈ e.children) :
    sizeOf c < sizeOf e := by
  cases e with
  | arithmetic op operands =>
    have hlt : sizeOf c < sizeOf operands := List.sizeOf_lt_of_mem h
    rw [Expr.arithmetic.sizeOf_spec]
    omega
  | comparison op operands =>
    have hlt : sizeOf c < sizeOf operands := List.sizeOf_lt_of_mem h
    rw [Expr.comparison.sizeOf_spec]
    omega
  | conditional condition onTrue onFalse =>
    rw [Expr.conditional.sizeOf_spec]
    simp only [children, List.mem_cons, List.not_mem_nil, or_false] at h
    rcases h with rfl | rfl | rfl <;> omega
  | procedure inputs body =>
    obtain rfl := List.mem_singleton.1 h
    rw [Expr.procedure.sizeOf_spec]
    omega
  | call callee arguments =>
    rw [Expr.call.sizeOf_spec]
    rcases List.mem_cons.1 h with rfl | harg
    · omega
    · have hlt := List.sizeOf_lt_of_mem harg
      omega
  | definition key value =>
    obtain rfl := List.mem_singleton.1 h
    rw [Expr.definition.sizeOf_spec]
    omega
  | effect name args bind next =>
    rw [Expr.effect.sizeOf_spec]
    rcases List.mem_append.1 h with harg | hnext
    · obtain ⟨key, hmem⟩ := mem_argExprs.1 harg
      have hlt := List.sizeOf_lt_of_mem hmem
      rw [Prod.mk.sizeOf_spec, Arg.expr.sizeOf_spec] at hlt
      omega
    · obtain rfl : next = some c := Option.mem_toList.1 hnext
      rw [Option.some.sizeOf_spec]
      omega
  | block items =>
    have hlt : sizeOf c < sizeOf items := List.sizeOf_lt_of_mem h
    rw [Expr.block.sizeOf_spec]
    omega
  | _ => cases h

/-- A well-formed program can be evaluated. -/
theorem Expr.evaluable_of_wellFormed (e : Expr) (h : e.wellFormed = true) : e.evaluable = true :=
  evaluable_of_children (wellFormed_iff.1 h).1 fun c hc =>
    evaluable_of_wellFormed c ((wellFormed_iff.1 h).2 c hc)
termination_by sizeOf e
decreasing_by exact sizeOf_lt_of_mem_children hc

/-! ## Trees and the values that are read as programs -/

/-- The value of a field, if a map has it. -/
def fieldAt (entries : Bindings) (field : String) : List Value := (entries.get? field).toList

/-- The elements of the list in a field. -/
def itemsAt (entries : Bindings) (field : String) : List Value :=
  match entries.get? field with
  | some (.list items) => items
  | _ => []

/-- The values among the arguments of an effect that look like programs. -/
def argsAt (entries : Bindings) : List Value :=
  match entries.get? "args" with
  | some (.map args) => (args.map Prod.snd).filter Value.isNodeShape
  | _ => []

/-- The values in the fields of a map where its tag has programs. -/
def Tag.children (entries : Bindings) : Tag → List Value
  | .arithmetic => itemsAt entries "operands"
  | .comparison => itemsAt entries "operands"
  | .conditional =>
    fieldAt entries "condition" ++ fieldAt entries "trueReturn" ++ fieldAt entries "falseReturn"
  | .procedure => fieldAt entries "body"
  | .call => fieldAt entries "procedure" ++ itemsAt entries "arguments"
  | .definition => fieldAt entries "value"
  | .effect => argsAt entries ++ (fieldAt entries "then").filter (!·.isNull)
  | _ => []

/-- The values that stand in a tree where a program is expected. -/
def Value.children : Value → List Value
  | .map entries =>
    match tagOf? entries with
    | some tag => tag.children entries
    | none => []
  | .list items => items
  | _ => []

/-- Whether a value is a list. -/
def Value.isList : Value → Bool
  | .list _ => true
  | _ => false

/-- Nowhere in a tree is there a list where a program is expected. -/
def Value.Single (p : Value) : Prop :=
  ∀ q, Relation.ReflTransGen (fun p q => q ∈ p.children) p q → q.isList = false

theorem Value.single_iff {p : Value} :
    p.Single ↔ p.isList = false ∧ ∀ q ∈ p.children, q.Single := by
  constructor
  · exact fun h => ⟨h p .refl, fun q hq r hr => h r (.head hq hr)⟩
  · rintro ⟨hself, hchildren⟩ q hq
    rcases Relation.ReflTransGen.cases_head hq with rfl | ⟨c, hc, hrest⟩
    · exact hself
    · exact hchildren c hc q hrest

/-- A value that is read as a program in a map is the value of a field, or in a list or a map that
is. -/
theorem Value.mem_children_map {entries : Bindings} {q : Value}
    (h : q ∈ (Value.map entries).children) :
    (∃ k, (k, q) ∈ entries) ∨ (∃ k items, (k, .list items) ∈ entries ∧ q ∈ items) ∨
      ∃ k args k', (k, .map args) ∈ entries ∧ (k', q) ∈ args := by
  have hfield : ∀ {field}, q ∈ fieldAt entries field → ∃ k, (k, q) ∈ entries := by
    intro field hq
    exact Bindings.mem_of_get? (Option.mem_toList.1 hq)
  have hitems : ∀ {field}, q ∈ itemsAt entries field →
      ∃ k items, (k, .list items) ∈ entries ∧ q ∈ items := by
    intro field hq
    unfold itemsAt at hq
    split at hq
    next items hget =>
      obtain ⟨k, hk⟩ := Bindings.mem_of_get? hget
      exact ⟨k, items, hk, hq⟩
    next => cases hq
  have hargs : q ∈ argsAt entries → ∃ k args k', (k, .map args) ∈ entries ∧ (k', q) ∈ args := by
    intro hq
    unfold argsAt at hq
    split at hq
    next args hget =>
      obtain ⟨k, hk⟩ := Bindings.mem_of_get? hget
      obtain ⟨⟨k', _⟩, hmem, rfl⟩ := List.mem_map.1 (List.mem_filter.1 hq).1
      exact ⟨k, args, k', hk, hmem⟩
    next => cases hq
  unfold children at h
  dsimp only at h
  split at h
  next tag _ =>
    cases tag with
    | arithmetic => exact .inr (.inl (hitems h))
    | comparison => exact .inr (.inl (hitems h))
    | conditional =>
      rcases List.mem_append.1 h with h | h
      · rcases List.mem_append.1 h with h | h
        · exact .inl (hfield h)
        · exact .inl (hfield h)
      · exact .inl (hfield h)
    | procedure => exact .inl (hfield h)
    | call =>
      rcases List.mem_append.1 h with h | h
      · exact .inl (hfield h)
      · exact .inr (.inl (hitems h))
    | definition => exact .inl (hfield h)
    | effect =>
      rcases List.mem_append.1 h with h | h
      · exact .inr (.inr (hargs h))
      · exact .inl (hfield (List.mem_filter.1 h).1)
    | _ => cases h
  next => cases h

theorem Value.sizeOf_lt_of_mem_map {entries : Bindings} {k v : Value} (h : (k, v) ∈ entries) :
    sizeOf v < sizeOf (Value.map entries) := by
  have hlt := List.sizeOf_lt_of_mem h
  rw [Prod.mk.sizeOf_spec] at hlt
  rw [Value.map.sizeOf_spec]
  omega

theorem Value.sizeOf_lt_of_mem_list {items : List Value} {v : Value} (h : v ∈ items) :
    sizeOf v < sizeOf (Value.list items) := by
  have hlt := List.sizeOf_lt_of_mem h
  rw [Value.list.sizeOf_spec]
  omega

theorem Value.sizeOf_lt_of_mem_children {entries : Bindings} {q : Value}
    (h : q ∈ (Value.map entries).children) : sizeOf q < sizeOf (Value.map entries) := by
  rcases mem_children_map h with ⟨k, hq⟩ | ⟨k, items, hitems, hq⟩ | ⟨k, args, k', hargs, hq⟩
  · exact sizeOf_lt_of_mem_map hq
  · exact Nat.lt_trans (sizeOf_lt_of_mem_list hq) (sizeOf_lt_of_mem_map hitems)
  · exact Nat.lt_trans (sizeOf_lt_of_mem_map hq) (sizeOf_lt_of_mem_map hargs)

theorem itemsFaithful_iff {items : List Value} :
    itemsFaithful items = true ↔ ∀ v ∈ items, v.nodesFaithful = true := by
  induction items with
  | nil => simp [itemsFaithful]
  | cons v rest ih => simp [itemsFaithful, ih]

theorem entriesFaithful_iff {entries : Bindings} :
    entriesFaithful entries = true ↔ ∀ entry ∈ entries, entry.2.nodesFaithful = true := by
  induction entries with
  | nil => simp [entriesFaithful]
  | cons entry rest ih => simp [entriesFaithful, ih]

theorem Value.nodesFaithful_of_mem_children {entries : Bindings} {q : Value}
    (hfaithful : (Value.map entries).nodesFaithful = true) (h : q ∈ (Value.map entries).children) :
    q.nodesFaithful = true := by
  rw [nodesFaithful, entriesFaithful_iff] at hfaithful
  rcases mem_children_map h with ⟨k, hq⟩ | ⟨k, items, hitems, hq⟩ | ⟨k, args, k', hargs, hq⟩
  · exact hfaithful _ hq
  · have hlist := hfaithful _ hitems
    rw [nodesFaithful, itemsFaithful_iff] at hlist
    exact hlist q hq
  · have hmap := hfaithful _ hargs
    rw [nodesFaithful, entriesFaithful_iff] at hmap
    exact hmap _ hq

/-! ## Decoding -/

theorem Value.equal_str (s : String) (k : Value) :
    Value.equal (.str s) k = Value.alike (.str s) k := by
  cases k <;> simp [Value.alike, Value.sameNaN, Value.equal]

theorem exprsOf_eq (vs : List Value) : exprsOf vs = vs.mapM Expr.ofValue := by
  induction vs with
  | nil => rfl
  | cons v rest ih => rw [exprsOf, List.mapM_cons, ih]

theorem exprField?_eq (field : String) (entries : Bindings) :
    exprField? field entries = (entries.get? field).map Expr.ofValue := by
  induction entries with
  | nil => rfl
  | cons entry rest ih =>
    obtain ⟨k, v⟩ := entry
    rw [exprField?, Bindings.get?_cons, Value.equal_str, ih]
    split <;> rfl

theorem exprsField?_eq (tag : Tag) (field : String) (entries : Bindings) :
    exprsField? tag field entries = (entries.get? field).map (exprsOfValue tag field) := by
  induction entries with
  | nil => rfl
  | cons entry rest ih =>
    obtain ⟨k, v⟩ := entry
    rw [exprsField?, Bindings.get?_cons, Value.equal_str, ih]
    split <;> rfl

theorem argsField_eq (entries : Bindings) :
    argsField entries = ((entries.get? "args").map argsOfValue).getD (.ok []) := by
  induction entries with
  | nil => rfl
  | cons entry rest ih =>
    obtain ⟨k, v⟩ := entry
    rw [argsField, Bindings.get?_cons, Value.equal_str, ih]
    split <;> rfl

theorem nextField_eq (entries : Bindings) :
    nextField entries = ((entries.get? "then").map fun v =>
      if v.isNull then .ok none else some <$> Expr.ofValue v).getD (.ok none) := by
  induction entries with
  | nil => rfl
  | cons entry rest ih =>
    obtain ⟨k, v⟩ := entry
    rw [nextField, Bindings.get?_cons, Value.equal_str, ih]
    split <;> rfl

section Fields

variable {entries : Bindings}

/-- What is read from a field is what stands in it. -/
theorem mapM_fieldAt {tag : Tag} {field : String} {e : Expr}
    (h : orMissing tag field (exprField? field entries) = .ok e) :
    (fieldAt entries field).mapM Expr.ofValue = .ok [e] := by
  have hfield := orMissing_eq_ok h
  rw [exprField?_eq] at hfield
  obtain ⟨v, hv, he⟩ := Option.map_eq_some_iff.1 hfield
  rw [fieldAt, hv, Option.toList_some, List.mapM_cons, he]
  rfl

theorem mapM_itemsAt {tag : Tag} {field : String} {es : List Expr}
    (h : orMissing tag field (exprsField? tag field entries) = .ok es) :
    (itemsAt entries field).mapM Expr.ofValue = .ok es := by
  have hfield := orMissing_eq_ok h
  rw [exprsField?_eq] at hfield
  obtain ⟨v, hv, hes⟩ := Option.map_eq_some_iff.1 hfield
  cases v with
  | list items =>
    rw [exprsOfValue, exprsOf_eq] at hes
    rw [itemsAt, hv]
    exact hes
  | _ => simp [exprsOfValue] at hes

theorem mapM_argsOf {entries : Bindings} {args : List (Value × Arg)}
    (h : argsOf entries = .ok args) :
    ((entries.map Prod.snd).filter Value.isNodeShape).mapM Expr.ofValue = .ok (argExprs args) := by
  induction entries generalizing args with
  | nil =>
    cases h
    rfl
  | cons entry rest ih =>
    obtain ⟨k, v⟩ := entry
    rw [argsOf_cons] at h
    obtain ⟨a, ha, h⟩ := Result.bind_eq_ok.1 h
    obtain ⟨others, hothers, h⟩ := Result.bind_eq_ok.1 h
    cases h
    rw [readArg] at ha
    rw [List.map_cons, List.filter_cons]
    by_cases hshape : v.isNodeShape = true
    · rw [if_pos hshape] at ha ⊢
      obtain ⟨e, he, rfl⟩ := Result.map_eq_ok.1 ha
      rw [List.mapM_cons, he, ih hothers]
      rfl
    · rw [if_neg hshape] at ha ⊢
      cases ha
      rw [ih hothers]
      rfl

theorem mapM_argsAt {args : List (Value × Arg)} (h : argsField entries = .ok args) :
    (argsAt entries).mapM Expr.ofValue = .ok (argExprs args) := by
  rw [argsField_eq] at h
  unfold argsAt
  cases hget : entries.get? "args" with
  | none =>
    rw [hget] at h
    cases h
    rfl
  | some v =>
    rw [hget] at h
    change argsOfValue v = .ok args at h
    cases v with
    | map entries =>
      rw [argsOfValue] at h
      exact mapM_argsOf h
    | _ =>
      simp only [argsOfValue] at h
      split at h
      · cases h
      · cases h
        rfl

theorem mapM_thenAt {next : Option Expr} (h : nextField entries = .ok next) :
    ((fieldAt entries "then").filter (!·.isNull)).mapM Expr.ofValue = .ok next.toList := by
  rw [nextField_eq] at h
  unfold fieldAt
  cases hget : entries.get? "then" with
  | none =>
    rw [hget] at h
    cases h
    rfl
  | some v =>
    rw [hget] at h
    change (if v.isNull then .ok none else some <$> Expr.ofValue v) = _ at h
    rw [Option.toList_some, List.filter_cons]
    split at h
    · rename_i hnull
      cases h
      rw [if_neg (by simp [hnull])]
      rfl
    · rename_i hnull
      obtain ⟨e, he, rfl⟩ := Result.map_eq_ok.1 h
      rw [if_pos (by simp [hnull]), List.filter_nil, List.mapM_cons, he]
      rfl

end Fields

theorem tagOf?_of_requireTag {entries : Bindings} {tag : Tag} (h : requireTag entries = .ok tag) :
    tagOf? entries = some tag := by
  unfold requireTag at h
  obtain ⟨_, -, h⟩ := Result.bind_eq_ok.1 h
  split at h
  next tag' htag =>
    cases h
    exact htag
  next =>
    obtain ⟨shown, -, h⟩ := Result.bind_eq_ok.1 h
    cases h

theorem mapM_append_ok {as bs : List Value} {es fs : List Expr}
    (has : as.mapM Expr.ofValue = .ok es) (hbs : bs.mapM Expr.ofValue = .ok fs) :
    (as ++ bs).mapM Expr.ofValue = .ok (es ++ fs) := by
  rw [List.mapM_append, has, hbs]
  rfl

/-- What a map is decoded to is made of what the values in it are decoded to that are read as
programs, and is well-formed if these are. -/
theorem decodes_children {entries : Bindings} {e : Expr} (h : Expr.ofValue (.map entries) = .ok e) :
    (Value.map entries).children.mapM Expr.ofValue = .ok e.children ∧ e.locallySound = true := by
  rw [Expr.ofValue] at h
  obtain ⟨tag, htag, h⟩ := Result.bind_eq_ok.1 h
  -- the parts of the map are listed by the tag that the decoder goes by
  have hchildren : (Value.map entries).children = tag.children entries := by
    unfold Value.children
    dsimp only
    rw [tagOf?_of_requireTag htag]
  rw [hchildren]
  cases tag with
  | number =>
    obtain ⟨v, -, h⟩ := Result.bind_eq_ok.1 h
    obtain ⟨n, rfl⟩ := numberOf_eq_ok h
    exact ⟨rfl, rfl⟩
  | string =>
    obtain ⟨v, -, h⟩ := Result.bind_eq_ok.1 h
    obtain ⟨s, rfl⟩ := stringOf_eq_ok h
    exact ⟨rfl, rfl⟩
  | boolean =>
    obtain ⟨v, -, h⟩ := Result.bind_eq_ok.1 h
    obtain ⟨b, rfl⟩ := booleanOf_eq_ok h
    exact ⟨rfl, rfl⟩
  | «variable» =>
    obtain ⟨v, -, h⟩ := Result.bind_eq_ok.1 h
    obtain ⟨key, hkey, h⟩ := Result.bind_eq_ok.1 h
    cases h
    exact ⟨rfl, bne_iff_ne.2 (nameOf_ne_empty hkey)⟩
  | arithmetic =>
    obtain ⟨v, -, h⟩ := Result.bind_eq_ok.1 h
    obtain ⟨op, -, h⟩ := Result.bind_eq_ok.1 h
    obtain ⟨operands, hoperands, h⟩ := Result.bind_eq_ok.1 h
    obtain ⟨_, hcount, h⟩ := Result.bind_eq_ok.1 h
    obtain ⟨hlen, rfl⟩ := atLeastTwo_eq_ok.1 hcount
    cases h
    exact ⟨mapM_itemsAt hoperands, decide_eq_true hlen⟩
  | comparison =>
    obtain ⟨v, -, h⟩ := Result.bind_eq_ok.1 h
    obtain ⟨op, -, h⟩ := Result.bind_eq_ok.1 h
    obtain ⟨operands, hoperands, h⟩ := Result.bind_eq_ok.1 h
    obtain ⟨_, hcount, h⟩ := Result.bind_eq_ok.1 h
    obtain ⟨hlen, rfl⟩ := atLeastTwo_eq_ok.1 hcount
    cases h
    exact ⟨mapM_itemsAt hoperands, decide_eq_true hlen⟩
  | conditional =>
    obtain ⟨condition, hcondition, h⟩ := Result.bind_eq_ok.1 h
    obtain ⟨onTrue, htrue, h⟩ := Result.bind_eq_ok.1 h
    obtain ⟨onFalse, hfalse, h⟩ := Result.bind_eq_ok.1 h
    cases h
    have hfirst := mapM_append_ok (mapM_fieldAt hcondition) (mapM_fieldAt htrue)
    exact ⟨mapM_append_ok hfirst (mapM_fieldAt hfalse), rfl⟩
  | procedure =>
    obtain ⟨v, -, h⟩ := Result.bind_eq_ok.1 h
    obtain ⟨inputs, hinputs, h⟩ := Result.bind_eq_ok.1 h
    obtain ⟨body, hbody, h⟩ := Result.bind_eq_ok.1 h
    cases h
    exact ⟨mapM_fieldAt hbody, inputsOf_all_ne_empty hinputs⟩
  | call =>
    obtain ⟨callee, hcallee, h⟩ := Result.bind_eq_ok.1 h
    obtain ⟨_, hcheck, h⟩ := Result.bind_eq_ok.1 h
    obtain ⟨arguments, harguments, h⟩ := Result.bind_eq_ok.1 h
    cases h
    exact ⟨mapM_append_ok (mapM_fieldAt hcallee) (mapM_itemsAt harguments),
      checkCallee_eq_ok.1 hcheck⟩
  | definition =>
    obtain ⟨v, -, h⟩ := Result.bind_eq_ok.1 h
    obtain ⟨key, hkey, h⟩ := Result.bind_eq_ok.1 h
    obtain ⟨value, hvalue, h⟩ := Result.bind_eq_ok.1 h
    cases h
    exact ⟨mapM_fieldAt hvalue, bne_iff_ne.2 (nameOf_ne_empty hkey)⟩
  | effect =>
    obtain ⟨v, -, h⟩ := Result.bind_eq_ok.1 h
    obtain ⟨name, hname, h⟩ := Result.bind_eq_ok.1 h
    obtain ⟨args, hargs, h⟩ := Result.bind_eq_ok.1 h
    obtain ⟨bind, hbind, h⟩ := Result.bind_eq_ok.1 h
    obtain ⟨next, hnext, h⟩ := Result.bind_eq_ok.1 h
    cases h
    refine ⟨mapM_append_ok (mapM_argsAt hargs) (mapM_thenAt hnext), ?_⟩
    rw [Expr.locallySound, Bool.and_eq_true]
    exact ⟨bne_iff_ne.2 (nameOf_ne_empty hname), bindOf_all_ne_empty hbind⟩

/-- Where values are decoded one by one, what holds of the values holds of the programs. -/
theorem forall_decoded_iff {P : Value → Prop} {Q : Expr → Prop} {vs : List Value} {es : List Expr}
    (h : vs.mapM Expr.ofValue = .ok es)
    (hPQ : ∀ v ∈ vs, ∀ e, Expr.ofValue v = .ok e → (Q e ↔ P v)) :
    (∀ e ∈ es, Q e) ↔ ∀ v ∈ vs, P v := by
  induction vs generalizing es with
  | nil =>
    cases h
    simp
  | cons v rest ih =>
    rw [List.mapM_cons] at h
    obtain ⟨e, he, h⟩ := Result.bind_eq_ok.1 h
    obtain ⟨es', hes, h⟩ := Result.bind_eq_ok.1 h
    cases h
    obtain ⟨hv, hrest⟩ := List.forall_mem_cons.1 hPQ
    rw [List.forall_mem_cons, List.forall_mem_cons, hv e he, ih hes hrest]

/-- A tree is decoded to a well-formed program exactly if it is single. The induction is on the size
of the tree, from a map to the values in it that are read as programs. -/
theorem wellFormed_iff_single {p : Value} (hp : p.nodesFaithful = true) {e : Expr}
    (he : Expr.ofValue p = .ok e) : e.wellFormed = true ↔ p.Single := by
  induction hsize : sizeOf p using Nat.strongRecOn generalizing p e with
  | ind size ih =>
    cases p with
    | map entries =>
      obtain ⟨hchildren, hlocal⟩ := decodes_children he
      have hiff : (∀ c ∈ e.children, c.wellFormed = true) ↔
          ∀ q ∈ (Value.map entries).children, q.Single := by
        refine forall_decoded_iff hchildren fun q hq e' he' => ?_
        have hlt := hsize ▸ Value.sizeOf_lt_of_mem_children hq
        exact ih (sizeOf q) hlt (Value.nodesFaithful_of_mem_children hp hq) he' rfl
      rw [Expr.wellFormed_iff, Value.single_iff, hiff]
      exact ⟨fun h => ⟨rfl, h.2⟩, fun h => ⟨hlocal, h.2⟩⟩
    | list items =>
      rw [Expr.ofValue] at he
      obtain ⟨es, -, he⟩ := Result.bind_eq_ok.1 he
      cases he
      constructor
      · intro h
        cases h
      · intro h
        cases h _ .refl
    | node e' =>
      cases he
      rw [Value.nodesFaithful, Bool.and_eq_true] at hp
      exact ⟨fun _ => Value.single_iff.2 ⟨rfl, fun _ h => nomatch h⟩, fun _ => hp.1⟩
    | _ => simp [Expr.ofValue] at he

/-! ## Evaluating what was decoded -/

/-- A host that does not itself claim that a program is malformed. -/
def Accepts {σ : Type} (handler : Option (Handler σ)) : Prop :=
  ∀ answer name args host flaw, handler = some answer →
    (answer name args host).outcome ≠ .error (.malformed flaw)

/-- Evaluating an evaluable program does not come to a part that is no program. -/
theorem eval_ne_malformed {σ : Type} {handler : Option (Handler σ)} {fuel : Nat} {e : Expr}
    {env : Environment} {m : Machine σ} (he : e.evaluable = true) (henv : m.Safe env.toValue)
    (hanswers : AnswersSafely handler ⟨evaluation handler.isSome fuel e env, m⟩)
    (haccepts : Accepts handler) (flaw : Flaw) :
    ((eval handler fuel e env).run.run m).1 ≠ .error (.failure (.malformed flaw)) := by
  obtain ⟨steps, last, hcourse, hlast⟩ :=
    Script.exists_course (evaluation handler.isSome fuel e env) m
  have hsecure := hcourse.secure hanswers (evaluation_secure fuel e env m he henv)
  rw [evaluation_run] at hlast
  intro hmalformed
  rw [hmalformed] at hlast
  cases last with
  | done r => cases hlast
  | step s next => cases hlast
  | stop cause =>
    have hstop : cause.stop = .failure (.malformed flaw) := Except.error.inj (Option.some.inj hlast)
    cases cause with
    | arithmetic op operands failure =>
      cases hstop
      cases hsecure.2.2
    | comparison op operands failure =>
      cases hstop
      cases hsecure.2.2
    | notEvaluable e => exact hsecure
    | refused name args failure =>
      cases hstop
      obtain ⟨answer, host, hanswer, houtcome⟩ := hsecure
      exact haccepts answer name args host flaw hanswer houtcome
    | _ => cases hstop

/-- A tree that passes the check is decoded, and the program is well-formed exactly if the tree is
single. Also exactly then can the program be written as a tree. If so, its evaluation never comes to
a part that is no program, as long as there is none in the procedures that it is given and the host
does not report one. -/
theorem validated_iff_single {p : Value} (hp : p.nodesFaithful = true)
    (hvalid : Expr.validate p = .ok .wellFormed) :
    ∃ e, Expr.ofValue p = .ok e ∧ (e.wellFormed = true ↔ p.Single) ∧
      ((∃ q, e.toValue = .ok q) ↔ p.Single) ∧
      (p.Single → ∀ {σ : Type} (handler : Option (Handler σ)) fuel env (m : Machine σ) flaw,
        m.Safe env.toValue → AnswersSafely handler ⟨evaluation handler.isSome fuel e env, m⟩ →
        Accepts handler →
        ((eval handler fuel e env).run.run m).1 ≠ .error (.failure (.malformed flaw))) := by
  unfold Expr.validate at hvalid
  cases he : Expr.ofValue p with
  | error failure =>
    rw [he] at hvalid
    cases failure <;> cases hvalid
  | ok e =>
    have hiff := wellFormed_iff_single hp he
    refine ⟨e, rfl, hiff, ⟨?_, ?_⟩, ?_⟩
    · rintro ⟨q, hq⟩
      exact hiff.1 (Expr.faithful_of_ofValue p hp he hq).1
    · intro h
      obtain ⟨q, hq, -⟩ := e.exists_written (hiff.2 h)
      exact ⟨q, hq⟩
    · intro h σ handler fuel env m flaw henv hanswers haccepts
      exact eval_ne_malformed (e.evaluable_of_wellFormed (hiff.2 h)) henv hanswers haccepts flaw

/-- A definition of a name by a list of one program. -/
def listDefinition : Value :=
  taggedFields .definition [("key", .str "x"), ("value", .list [variableTree "y"])]

/-- A definition by a program is decoded to one that can be written and evaluated. One by a list
passes the check too, but what it is decoded to can be neither. -/
theorem validated_iff_single_definition :
    let m₀ : Machine Unit := ⟨#[], [], [], false, "", ()⟩
    (Expr.validate shortDefinition = .ok .wellFormed ∧ shortDefinition.Single ∧
      ∃ e, Expr.ofValue shortDefinition = .ok e ∧ e.wellFormed = true ∧ (∃ q, e.toValue = .ok q) ∧
        ∀ fuel flaw,
          ((eval none fuel e .empty).run.run m₀).1 ≠ .error (.failure (.malformed flaw))) ∧
    (Expr.validate listDefinition = .ok .wellFormed ∧ ¬ listDefinition.Single ∧
      ∃ e, Expr.ofValue listDefinition = .ok e ∧ ¬ e.wellFormed = true ∧
        (¬ ∃ q, e.toValue = .ok q) ∧
        ∃ flaw, ((eval none 2 e .empty).run.run m₀).1 = .error (.failure (.malformed flaw))) := by
  intro m₀
  have hshort : Expr.validate shortDefinition = .ok .wellFormed := by rfl
  have hlist : Expr.validate listDefinition = .ok .wellFormed := by rfl
  have hmany : ¬ listDefinition.Single := by
    intro h
    cases h (.list [variableTree "y"]) (.single List.mem_cons_self)
  constructor
  · obtain ⟨e, he, hwf, hwritten, heval⟩ := validated_iff_single (by rfl) hshort
    obtain rfl : Expr.definition "y" (.variable "x") = e := Except.ok.inj he
    have hsingle := hwf.1 rfl
    have hempty : m₀.Safe Environment.empty.toValue :=
      Machine.Safe.environment_iff.2 fun _ h => nomatch h
    refine ⟨hshort, hsingle, _, he, rfl, hwritten.2 hsingle, fun fuel flaw => ?_⟩
    exact heval hsingle none fuel .empty m₀ flaw hempty (by rintro _ _ _ _ _ _ _ - ⟨⟩)
      (by rintro _ _ _ _ _ ⟨⟩)
  · obtain ⟨e, he, hwf, hwritten, -⟩ := validated_iff_single (by rfl) hlist
    refine ⟨hlist, hmany, e, he, fun h => hmany (hwf.1 h), fun h => hmany (hwritten.1 h), ?_⟩
    obtain rfl : Expr.definition "x" (.block [.variable "y"]) = e := Except.ok.inj he
    exact ⟨_, rfl⟩

end TreeScript
