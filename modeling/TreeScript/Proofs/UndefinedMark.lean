import TreeScript.Proofs.CapturedScopes
import TreeScript.Proofs.Provenance

/-!
# The undefined mark

An input of a procedure that has received no argument is bound to the undefined mark. Closures that
are made in the body keep this binding in their scopes and carry it out of the call. Still the mark
is not to be seen: looking up a name that is bound to it fails, and nothing else makes a value of a
binding. So no program evaluates to the mark, no call is entered with it, and no name is bound to it
that was not so before (`eval_returns_defined`).

The arguments of an effect are the one exception, since they can be literals. No program that is
decoded from JSON data has the mark as a literal (`Expr.definite_of_isJson`), but a procedure can
have it that the environment or an answer of the host has brought in. The main statement
`undefined_never_escapes` says all this of every evaluation in the course of a run, and
`brought_in_mark` shows that the exception is one.
-/

namespace TreeScript

open Job (Part Occurs)

variable {σ : Type}

/-! ## Operators -/

/-- An operator gives numbers, texts, lists, tuples, sets and bytes. -/
theorem Value.add_defined (a b : Value) : (a.add b).OfOperator (· ≠ .undefined) := by
  unfold Value.add
  split
  case h_9 =>
    split
    · exact Number.combine_ofOperator (fun _ => nofun) (fun _ => nofun) ..
    · exact rfl
  all_goals first | exact rfl | exact nofun

theorem Value.sub_defined (a b : Value) : (a.sub b).OfOperator (· ≠ .undefined) := by
  unfold Value.sub
  split
  · exact nofun
  · split
    · exact Number.combine_ofOperator (fun _ => nofun) (fun _ => nofun) ..
    · exact rfl

theorem Value.times_defined (sequence count : Value) :
    (sequence.times count).OfOperator (· ≠ .undefined) := by
  unfold Value.times
  cases count.integer? with
  | none => exact rfl
  | some n =>
    cases sequence with
    | str s => exact (repeatCount_ofOperator rfl ..).bind fun _ _ => nofun
    | list items => exact (repeatCount_ofOperator rfl ..).bind fun _ _ => nofun
    | tuple items => exact (repeatCount_ofOperator rfl ..).bind fun _ _ => nofun
    | bytes octets => exact (repeatCount_ofOperator rfl ..).bind fun _ _ => nofun
    | _ => exact rfl

theorem Value.mul_defined (a b : Value) : (a.mul b).OfOperator (· ≠ .undefined) := by
  unfold Value.mul
  split
  · exact Number.combine_ofOperator (fun _ => nofun) (fun _ => nofun) ..
  · exact .ite (a.times_defined b) (.ite (b.times_defined a) rfl)

theorem Value.div_defined (a b : Value) : (a.div b).OfOperator (· ≠ .undefined) := by
  unfold Value.div
  split
  · exact .ite nofun (a.real_ofOperator.bind fun p _ => b.real_ofOperator.bind fun q _ => nofun)
  · split
    · unfold quotient
      split
      · exact nofun
      · exact rfl
    · rename_i x y _ _ _
      exact x.toFloat_ofOperator.bind fun p _ => y.toFloat_ofOperator.bind fun q _ => nofun
    · exact rfl

theorem ArithmeticOp.fold_defined (op : ArithmeticOp) {operands : List Value} {v : Value}
    (hoperands : ∀ w ∈ operands, w ≠ .undefined) (h : op.fold operands = .ok v) :
    v ≠ .undefined := by
  have happly : ∀ a b, (op.apply a b).OfOperator (· ≠ .undefined) := by
    intro a b
    cases op with
    | add => exact a.add_defined b
    | sub => exact a.sub_defined b
    | mul => exact a.mul_defined b
    | div => exact a.div_defined b
  cases operands with
  | nil => cases h
  | cons first rest =>
    have hfold : ∀ first : Value, first ≠ .undefined →
        (rest.foldlM op.apply first).OfOperator (· ≠ .undefined) := by
      clear h hoperands
      induction rest with
      | nil => exact fun _ hfirst => hfirst
      | cons next rest ih =>
        intro first _
        rw [List.foldlM_cons]
        exact (happly first next).bind ih
    have hv := hfold first (hoperands first List.mem_cons_self)
    rw [show rest.foldlM op.apply first = .ok v from h] at hv
    exact hv

/-! ## Evaluation -/

/-- No name is bound to the mark that was not so before. -/
def Environment.GainsNoMark (before after : Environment) : Prop :=
  ∀ name, after.find? name = some .undefined → before.find? name = some .undefined

namespace Environment.GainsNoMark

theorem refl (env : Environment) : env.GainsNoMark env := fun _ h => h

theorem trans {a b c : Environment} (hab : a.GainsNoMark b) (hbc : b.GainsNoMark c) :
    a.GainsNoMark c :=
  fun name h => hab name (hbc name h)

theorem extend (env : Environment) (key : String) {v : Value} (hv : v ≠ .undefined) :
    env.GainsNoMark (env.extend key v) := by
  intro name h
  change (env.bindings.put (.str key) v).lookup? name = some .undefined at h
  rw [Bindings.lookup?_put] at h
  split at h
  · exact absurd (Option.some.inj h) hv
  · exact h

theorem bindAnswer (env : Environment) (bind : Option String) {v : Value} (hv : v ≠ .undefined) :
    env.GainsNoMark (env.bindAnswer bind v) :=
  Environment.bindAnswer_cases v bind (.refl env) fun key _ => .extend env key hv

end Environment.GainsNoMark

/-- A host that never answers with the mark. -/
def AnswersDefined (handler : Option (Handler σ)) : Prop :=
  ∀ answer, handler = some answer → ∀ name args host,
    (answer name args host).outcome ≠ .ok .undefined

variable {handler : Option (Handler σ)}

theorem lookup_ne_undefined {env : Environment} {key : String} {v : Value}
    (h : env.lookup key = .ok v) : v ≠ .undefined := by
  rintro rfl
  unfold Environment.lookup at h
  split at h
  · cases h
  · cases h
  · rename_i hne _
    cases h
    exact hne rfl

theorem perform_returns_defined {answer : Handler σ} (name : String) (args : Bindings)
    (hanswer : ∀ name args host, (answer name args host).outcome ≠ .ok .undefined) :
    (Run.perform answer name args).Returns (· ≠ .undefined) := by
  rintro m _ after hv rfl
  have houtcome : (answer name args m.host).outcome = .ok .undefined := (Run.ofResult_eq_ok hv).1
  exact hanswer name args m.host houtcome

/-- The value is not the mark, and the environment binds no other names to it. -/
def Defined (env : Environment) (r : Value × Environment) : Prop :=
  r.1 ≠ .undefined ∧ env.GainsNoMark r.2

theorem evalOperands_returns_defined {fuel : Nat}
    (hev : ∀ e env, (eval handler fuel e env).Returns (Defined env)) (env : Environment)
    (operands : List Expr) :
    (evalOperands handler fuel env operands).Returns fun values =>
      ∀ v ∈ values, v ≠ .undefined := by
  refine (Run.Returns.mapM fun operand _ => (hev operand env).map (Q := (· ≠ Value.undefined))
    fun _ hr => hr.1).imp fun values h v hv => ?_
  obtain ⟨_, -, hne⟩ := h v hv
  exact hne

/-- An argument of an effect is the mark only if it is one as a literal. -/
theorem evalArgs_returns_defined {fuel : Nat}
    (hev : ∀ e env, (eval handler fuel e env).Returns (Defined env)) (env : Environment)
    (args : List (Value × Arg)) :
    Run.Returns (args.mapM (evalArg handler fuel env)) fun values =>
      ∀ key, (key, .undefined) ∈ values → (key, .literal .undefined) ∈ args := by
  have harg : ∀ arg ∈ args, (evalArg handler fuel env arg).Returns fun value =>
      value.2 = .undefined → arg = (value.1, .literal .undefined) := by
    rintro ⟨key, arg⟩ -
    cases arg with
    | literal v => exact .pure fun hv => by rw [show v = .undefined from hv]
    | expr e => exact (hev e env).after fun r hr => .pure fun hv => absurd hv hr.1
  refine (Run.Returns.mapM harg).imp fun values h key hkey => ?_
  obtain ⟨arg, hmem, harg⟩ := h _ hkey
  exact harg rfl ▸ hmem

/-- No program evaluates to the mark, and none binds a name to it. The induction is on the fuel,
since a call goes on with the body of a closure; that its inputs can be bound to the mark does not
matter there. -/
theorem eval_returns_defined (hanswers : AnswersDefined handler) (fuel : Nat) (e : Expr)
    (env : Environment) : (eval handler fuel e env).Returns (Defined env) := by
  induction fuel generalizing e env with
  | zero => exact .throw _
  | succ fuel ih =>
    cases e with
    | number n => exact .pure ⟨by cases n <;> exact nofun, .refl env⟩
    | string s => exact .pure ⟨nofun, .refl env⟩
    | boolean b => exact .pure ⟨nofun, .refl env⟩
    | «variable» key =>
      exact Run.Returns.after (.ofResult fun _ => lookup_ne_undefined) fun v hv =>
        .pure ⟨hv, .refl env⟩
    | definition key value =>
      refine (ih value env).after fun r hr => .bind fun _ => .bind fun _ => ?_
      exact .pure ⟨nofun, .extend env key hr.1⟩
    | procedure inputs body => exact .bind fun _ => .pure ⟨nofun, .refl env⟩
    | arithmetic op operands =>
      refine (evalOperands_returns_defined ih env operands).after fun values hvalues => ?_
      exact Run.Returns.after (.ofResult fun _ => op.fold_defined hvalues) fun v hv =>
        .pure ⟨hv, .refl env⟩
    | comparison op operands => exact .bind fun _ => .bind fun _ => .pure ⟨nofun, .refl env⟩
    | conditional condition onTrue onFalse =>
      rw [eval_conditional]
      exact .bind fun branch => ih branch env
    | call callee arguments =>
      rw [eval_call]
      refine .bind fun target => ?_
      cases target with
      | closure ref inputs body =>
        refine .bind fun values => .bind fun scope => .bind fun _ => ?_
        exact (ih body _).after fun r hr => .bind fun _ => .pure ⟨hr.1, .refl env⟩
      | _ => exact .throw _
    | effect name args bind next =>
      cases handler with
      | none => exact .throw _
      | some answer =>
        rw [eval_effect_some]
        refine .bind fun values => .bind fun _ => ?_
        refine (perform_returns_defined name values (hanswers answer rfl)).after fun v hv => ?_
        have hbound := Environment.GainsNoMark.bindAnswer env bind hv
        cases next with
        | none => exact .pure ⟨hv, hbound⟩
        | some continuation =>
          exact (ih continuation _).imp fun r hr => ⟨hr.1, hbound.trans hr.2⟩
    | block items => exact .throw _

/-! ## In the course of a run -/

/-- The arguments of a call do not include the mark. -/
def Frame.Defined (frame : Frame) : Prop := ∀ v ∈ frame.args, v ≠ .undefined

namespace Job

/-- An evaluation is an effect with these arguments, and they have these values. -/
def Passes (handler : Option (Handler σ)) (t : Job σ) (args : List (Value × Arg))
    (values : Bindings) :
    Prop :=
  ∃ fuel name bind next m', t.fuel = fuel + 1 ∧ t.expr = .effect name args bind next ∧
    (args.mapM (evalArg handler fuel t.env)).run.run t.machine = (.ok values, m')

/-- The mark is not to be seen in an evaluation, apart from the calls that were under way before and
from the literals of an effect. -/
structure Hides (handler : Option (Handler σ)) (before : List Frame) (t : Job σ) : Prop where
  /-- It is not the value. -/
  value : ∀ {v after m'}, t.run handler = (.ok (v, after), m') → v ≠ .undefined
  /-- No other names are bound to it. -/
  env : ∀ {v after m'}, t.run handler = (.ok (v, after), m') → t.env.GainsNoMark after
  /-- It is not an argument of a call. -/
  calls : ∀ frame ∈ t.machine.calls, frame ∈ before ∨ frame.Defined
  /-- It is not an argument of an effect. -/
  args : ∀ {args values}, t.Passes handler args values →
    ∀ key, (key, .undefined) ∈ values → (key, .literal .undefined) ∈ args

theorem Part.frame_defined (hanswers : AnswersDefined handler) {t t' : Job σ} {frame : Frame}
    (h : Part handler t (some frame) t') : frame.Defined := by
  cases h with
  | body _ hvalues =>
    exact evalOperands_returns_defined (eval_returns_defined hanswers _) _ _ _ _ _ hvalues

/-- All calls that are entered in the course of an evaluation are without the mark. -/
theorem Within.calls_defined (hanswers : AnswersDefined handler) {t t' : Job σ}
    (h : Within handler t t') :
    ∀ frame ∈ t'.machine.calls, frame ∈ t.machine.calls ∨ frame.Defined := by
  induction h with
  | refl => exact fun frame hframe => .inl hframe
  | @tail t₁ t₂ _ hpart ih =>
    obtain ⟨entered, hpart⟩ := hpart
    intro frame hframe
    rw [(eval_divides handler t₁.fuel t₁.expr t₁.env).calls _ _ _ hpart, List.mem_append,
      Option.mem_toList] at hframe
    rcases hframe with hframe | rfl
    · exact ih frame hframe
    · exact .inr (hpart.frame_defined hanswers)

/-- Programs that are run in order begin with the same calls under way. -/
theorem Comes.calls_eq {fuel : Nat} {es : List Expr} {env : Environment} {m : Machine σ} {t : Job σ}
    (h : Comes handler fuel es env m t) : t.machine.calls = m.calls := by
  induction h with
  | first => rfl
  | later hrun _ ih => rw [ih, ((eval_divides handler _ _ _).returns _ _ _ hrun).1]

theorem Occurs.hides (hanswers : AnswersDefined handler) {fuel : Nat} {es : List Expr}
    {env : Environment} {m : Machine σ} {t : Job σ} (h : Occurs handler fuel es env m t) :
    t.Hides handler m.calls where
  value := fun hrun => (eval_returns_defined hanswers _ _ _ _ _ _ hrun).1
  env := fun hrun => (eval_returns_defined hanswers _ _ _ _ _ _ hrun).2
  calls := by
    obtain ⟨t₀, hcomes, hwithin⟩ := h
    rw [← hcomes.calls_eq]
    exact hwithin.calls_defined hanswers
  args := by
    rintro args values ⟨fuel, name, bind, next, m', -, -, hvalues⟩
    exact evalArgs_returns_defined (eval_returns_defined hanswers fuel) _ _ _ _ _ hvalues

end Job

theorem evalAll_returns_defined (hanswers : AnswersDefined handler) (fuel : Nat) (es : List Expr)
    (env : Environment) :
    (evalAll handler fuel es env).Returns fun r =>
      (∀ v ∈ r.1, v ≠ .undefined) ∧ env.GainsNoMark r.2 := by
  induction es generalizing env with
  | nil => exact .pure ⟨nofun, .refl env⟩
  | cons e rest ih =>
    rw [evalAll]
    refine (eval_returns_defined hanswers fuel e env).after fun first hfirst => ?_
    refine (ih first.2).after fun others hothers => .pure ⟨?_, hfirst.2.trans hothers.2⟩
    exact List.forall_mem_cons.2 ⟨hfirst.1, hothers.1⟩

/-! ## Programs without the mark -/

mutual

/-- Whether a value can be written as JSON: nothing, a truth value, a number, a text, or a list or a
map of such values with texts for keys. -/
def Value.isJson : Value → Bool
  | .null => true
  | .bool _ => true
  | .int _ => true
  | .float _ => true
  | .str _ => true
  | .list items => jsonItems items
  | .map entries => jsonEntries entries
  | _ => false
termination_by structural v => v

/-- Whether all elements of a list are JSON. -/
def jsonItems : List Value → Bool
  | [] => true
  | v :: rest => v.isJson && jsonItems rest
termination_by structural vs => vs

/-- Whether the entries of a map are JSON under texts. -/
def jsonEntries : List (Value × Value) → Bool
  | [] => true
  | (.str _, v) :: rest => v.isJson && jsonEntries rest
  | _ :: _ => false
termination_by structural es => es

end

theorem jsonItems_mem {items : List Value} (h : jsonItems items = true) {v : Value}
    (hv : v ∈ items) :
    v.isJson = true := by
  induction items with
  | nil => cases hv
  | cons w rest ih =>
    rw [jsonItems, Bool.and_eq_true] at h
    rcases List.mem_cons.1 hv with rfl | hv
    · exact h.1
    · exact ih h.2 hv

theorem jsonEntries_mem {entries : Bindings} (h : jsonEntries entries = true) {k v : Value}
    (hv : (k, v) ∈ entries) : v.isJson = true := by
  induction entries with
  | nil => cases hv
  | cons entry rest ih =>
    obtain ⟨k', w⟩ := entry
    cases k' with
    | str key =>
      rw [jsonEntries, Bool.and_eq_true] at h
      rcases List.mem_cons.1 hv with hv | hv
      · cases hv
        exact h.1
      · exact ih h.2 hv
    | _ => cases h

theorem Value.isJson_of_mem_children {entries : Bindings} {q : Value}
    (h : (Value.map entries).isJson = true) (hq : q ∈ (Value.map entries).children) :
    q.isJson = true := by
  rw [isJson] at h
  rcases mem_children_map hq with ⟨k, hq⟩ | ⟨k, items, hitems, hq⟩ | ⟨k, args, k', hargs, hq⟩
  · exact jsonEntries_mem h hq
  · have hlist := jsonEntries_mem h hitems
    rw [isJson] at hlist
    exact jsonItems_mem hlist hq
  · have hmap := jsonEntries_mem h hargs
    rw [isJson] at hmap
    exact jsonEntries_mem hmap hq

/-- The arguments of an effect. -/
def Expr.effectArgs : Expr → List (Value × Arg)
  | .effect _ args _ _ => args
  | _ => []

/-- No effect in a program has the mark for a literal. -/
inductive Expr.Definite : Expr → Prop
  | of_children {e : Expr} : (∀ key, (key, .literal .undefined) ∉ e.effectArgs) →
    (∀ c ∈ e.children, c.Definite) → e.Definite

theorem Expr.definite_hereditary : Hereditary Expr.Definite := by
  rintro e ⟨-, hchildren⟩
  exact hchildren

/-- The arguments of an effect are read from its field. -/
theorem argsField_of_ofValue {entries : Bindings} {name : String} {args : List (Value × Arg)}
    {bind : Option String} {next : Option Expr}
    (h : Expr.ofValue (.map entries) = .ok (.effect name args bind next)) :
    argsField entries = .ok args := by
  rw [Expr.ofValue] at h
  obtain ⟨tag, -, h⟩ := Result.bind_eq_ok.1 h
  cases tag with
  | effect =>
    obtain ⟨v, -, h⟩ := Result.bind_eq_ok.1 h
    obtain ⟨name, -, h⟩ := Result.bind_eq_ok.1 h
    obtain ⟨args, hargs, h⟩ := Result.bind_eq_ok.1 h
    obtain ⟨bind, -, h⟩ := Result.bind_eq_ok.1 h
    obtain ⟨next, -, h⟩ := Result.bind_eq_ok.1 h
    cases h
    exact hargs
  | number =>
    obtain ⟨v, -, h⟩ := Result.bind_eq_ok.1 h
    obtain ⟨_, hnumber⟩ := numberOf_eq_ok h
    cases hnumber
  | string =>
    obtain ⟨v, -, h⟩ := Result.bind_eq_ok.1 h
    obtain ⟨_, hstring⟩ := stringOf_eq_ok h
    cases hstring
  | boolean =>
    obtain ⟨v, -, h⟩ := Result.bind_eq_ok.1 h
    obtain ⟨_, hboolean⟩ := booleanOf_eq_ok h
    cases hboolean
  | «variable» =>
    obtain ⟨_, -, h⟩ := Result.bind_eq_ok.1 h
    obtain ⟨_, -, h⟩ := Result.bind_eq_ok.1 h
    cases h
  | conditional | procedure | call | definition =>
    obtain ⟨_, -, h⟩ := Result.bind_eq_ok.1 h
    obtain ⟨_, -, h⟩ := Result.bind_eq_ok.1 h
    obtain ⟨_, -, h⟩ := Result.bind_eq_ok.1 h
    cases h
  | arithmetic | comparison =>
    obtain ⟨_, -, h⟩ := Result.bind_eq_ok.1 h
    obtain ⟨_, -, h⟩ := Result.bind_eq_ok.1 h
    obtain ⟨_, -, h⟩ := Result.bind_eq_ok.1 h
    obtain ⟨_, -, h⟩ := Result.bind_eq_ok.1 h
    cases h

/-- A literal argument stands as it is among the entries that are read. -/
theorem mem_of_literal_mem {entries : Bindings} {args : List (Value × Arg)}
    (h : argsOf entries = .ok args) {key v : Value} (hv : (key, Arg.literal v) ∈ args) :
    (key, v) ∈ entries := by
  induction entries generalizing args with
  | nil =>
    cases h
    cases hv
  | cons entry rest ih =>
    obtain ⟨k, w⟩ := entry
    rw [argsOf_cons] at h
    obtain ⟨a, ha, h⟩ := Result.bind_eq_ok.1 h
    obtain ⟨others, hothers, h⟩ := Result.bind_eq_ok.1 h
    cases h
    rcases List.mem_cons.1 hv with hfirst | hv
    · cases hfirst
      rw [readArg] at ha
      split at ha
      · obtain ⟨e, -, he⟩ := Result.map_eq_ok.1 ha
        cases he
      · cases ha
        exact List.mem_cons_self
    · exact List.mem_cons_of_mem _ (ih hothers hv)

/-- The literals of a program that is decoded from JSON are JSON. -/
theorem isJson_of_literal_mem {entries : Bindings} (hentries : (Value.map entries).isJson = true)
    {e : Expr} (he : Expr.ofValue (.map entries) = .ok e) {key v : Value}
    (hv : (key, Arg.literal v) ∈ e.effectArgs) : v.isJson = true := by
  cases e with
  | effect name args bind next =>
    have hargs := argsField_of_ofValue he
    rw [argsField_eq] at hargs
    cases hget : entries.get? "args" with
    | none =>
      rw [hget] at hargs
      cases hargs
      cases hv
    | some field =>
      rw [hget] at hargs
      change argsOfValue field = .ok args at hargs
      obtain ⟨k, hk⟩ := Bindings.mem_of_get? hget
      rw [Value.isJson] at hentries
      have hfield := jsonEntries_mem hentries hk
      cases field with
      | map fields =>
        rw [argsOfValue] at hargs
        rw [Value.isJson] at hfield
        exact jsonEntries_mem hfield (mem_of_literal_mem hargs hv)
      | _ =>
        simp only [argsOfValue] at hargs
        split at hargs
        · cases hargs
        · cases hargs
          cases hv
  | _ => cases hv

/-- What holds of every program that a value is decoded to. -/
theorem forall_decoded {Q : Expr → Prop} {vs : List Value} {es : List Expr}
    (h : vs.mapM Expr.ofValue = .ok es) (hQ : ∀ v ∈ vs, ∀ e, Expr.ofValue v = .ok e → Q e) :
    ∀ e ∈ es, Q e :=
  (forall_decoded_iff (P := fun _ => True) h fun v hv e he => iff_true_intro (hQ v hv e he)).2
    fun _ _ => trivial

/-- No program that is decoded from JSON has the mark for a literal. The induction is on the size of
the tree, from a map to the values in it that are read as programs. -/
theorem Expr.definite_of_isJson {p : Value} (hp : p.isJson = true) {e : Expr}
    (he : Expr.ofValue p = .ok e) : e.Definite := by
  induction hsize : sizeOf p using Nat.strongRecOn generalizing p e with
  | ind size ih =>
    -- What is decoded from smaller trees.
    have hdecoded {qs : List Value} {es : List Expr} (hes : qs.mapM Expr.ofValue = .ok es)
        (hqs : ∀ q ∈ qs, q.isJson = true ∧ sizeOf q < sizeOf p) : ∀ c ∈ es, c.Definite :=
      forall_decoded hes fun q hq c hc =>
        ih (sizeOf q) (hsize ▸ (hqs q hq).2) (hqs q hq).1 hc rfl
    cases p with
    | map entries =>
      refine .of_children ?_ (hdecoded (decodes_children he).1 fun q hq =>
        ⟨Value.isJson_of_mem_children hp hq, Value.sizeOf_lt_of_mem_children hq⟩)
      intro key harg
      cases isJson_of_literal_mem hp he harg
    | list items =>
      rw [Expr.ofValue, exprsOf_eq] at he
      obtain ⟨es, hes, he⟩ := Result.bind_eq_ok.1 he
      cases he
      rw [Value.isJson] at hp
      exact .of_children nofun (hdecoded hes fun q hq =>
        ⟨jsonItems_mem hp hq, Value.sizeOf_lt_of_mem_list hq⟩)
    | node e' => cases hp
    | _ => simp [Expr.ofValue] at he

/-- The programs of a JSON tree. -/
theorem definite_of_programs {tree : Value} (htree : tree.isJson = true) {es : List Expr}
    (hes : (Session.programs tree).mapM Expr.ofValue = .ok es) : ∀ e ∈ es, e.Definite := by
  refine forall_decoded hes fun q hq c hc => Expr.definite_of_isJson ?_ hc
  cases tree with
  | list trees =>
    rw [Value.isJson] at htree
    exact jsonItems_mem htree hq
  | _ =>
    obtain rfl := List.mem_singleton.1 hq
    exact htree

/-! ## The main statement -/

/-- The mark stays hidden in all that is evaluated in the course of programs decoded from JSON, and
in what they return. The literals of effects are the only arguments that can be the mark, and no
effect of these programs has such a literal. So if there is none in the procedures either that the
environment and the answers of the host bring in, the host is not passed the mark at all. -/
theorem undefined_never_escapes {tree : Value} (htree : tree.isJson = true) {es : List Expr}
    (hes : (Session.programs tree).mapM Expr.ofValue = .ok es) {handler : Option (Handler σ)}
    (hanswers : AnswersDefined handler) (fuel : Nat) (env : Environment) (m : Machine σ) :
    (∀ t, Occurs handler fuel es env m t → t.Hides handler m.calls) ∧
    (∀ vs last m', (evalAll handler fuel es env).run.run m = (.ok (vs, last), m') →
      (∀ v ∈ vs, v ≠ .undefined) ∧ env.GainsNoMark last) ∧
    (∀ e ∈ es, e.Definite) ∧
    (m.Bears (fun _ => Expr.Definite) env.toValue →
      (∀ t, Occurs handler fuel es env m t → t.AnswersProper handler Expr.Definite) →
      ∀ t args values, Occurs handler fuel es env m t → t.Passes handler args values →
        ∀ key, (key, .undefined) ∉ values) := by
  have hdefinite := definite_of_programs htree hes
  refine ⟨fun t h => h.hides hanswers, fun vs last m' h =>
    evalAll_returns_defined hanswers fuel es env
    m _ m' h, hdefinite, ?_⟩
  intro henv hproper t args values hoccurs hpasses key hkey
  have hliteral := (hoccurs.hides hanswers).args hpasses key hkey
  obtain ⟨hliterals, -⟩ := (hoccurs.proper Expr.definite_hereditary hdefinite henv hproper).expr
  obtain ⟨_, name, bind, next, _, -, hexpr, -⟩ := hpasses
  rw [hexpr] at hliterals
  exact hliterals key hliteral

/-- A procedure with an effect, made by one that gets no argument for its input, is passed on and
called. -/
def carriedMark : Value :=
  let noted := taggedFields .effect [("name", .str "note"), ("args", .map [(.str "n", .int 1)])]
  let maker := taggedFields .procedure [("inputs", .list [.str "x"]),
    ("body", taggedFields .procedure [("inputs", .list []), ("body", noted)])]
  let caller := taggedFields .procedure [("inputs", .list [.str "g"]),
    ("body", taggedFields .call [("procedure", variableTree "g"), ("arguments", .list [])])]
  taggedFields .call [("procedure", caller),
    ("arguments", .list [taggedFields .call [("procedure", maker), ("arguments", .list [])]])]

/-- Binds a name to the mark. -/
def withMark : Environment := ⟨[(.str "u", .undefined)]⟩

theorem lister_answersDefined : AnswersDefined (some lister) := by
  rintro _ ⟨⟩ name args host ⟨⟩

/-- The scope of the procedure that is called has the mark, and so has the environment. It is not
seen. -/
theorem undefined_never_escapes_carried :
    let m₀ : Machine Unit := ⟨#[], [], [], false, "", ()⟩
    carriedMark.isJson = true ∧
    ∃ es, (Session.programs carriedMark).mapM Expr.ofValue = .ok es ∧
      (evalAll (some lister) 9 es withMark).run.run m₀ = (.ok ([.list [.int 1]], withMark),
        { m₀ with scopes := #[withMark, withMark, withMark.extend "x" .undefined] }) ∧
      (∀ t, Occurs (some lister) 9 es withMark m₀ t → t.Hides (some lister) []) ∧
      ∀ t args values, Occurs (some lister) 9 es withMark m₀ t →
        t.Passes (some lister) args values →
        ∀ key, (key, .undefined) ∉ values := by
  intro m₀
  have hjson : carriedMark.isJson = true := by decide
  obtain ⟨hhides, -, -, hpasses⟩ :=
    undefined_never_escapes hjson rfl lister_answersDefined 9 withMark m₀
  have henv : m₀.Bears (fun _ => Expr.Definite) withMark.toValue := by
    refine Machine.Bears.environment_iff.2 fun entry hentry => ?_
    obtain rfl := List.mem_singleton.1 hentry
    exact ⟨.str "u", .leaf rfl rfl⟩
  have hanswers : ∀ t : Job Unit, t.AnswersProper (some lister) Expr.Definite := by
    refine fun t => Job.AnswersProper.of_outcome t ?_
    rintro _ ⟨⟩ name args host v ⟨⟩ m
    refine .of_parts rfl fun w hw => ?_
    obtain rfl := List.mem_singleton.1 hw
    exact .leaf rfl rfl
  exact ⟨hjson, _, rfl, rfl, hhides, hpasses henv fun t _ => hanswers t⟩

/-- An environment with a procedure that passes the mark to the host. -/
def withMarkedEffect : Environment :=
  ⟨[(.str "f", .closure 0 [] (.effect "note" [(.str "x", .literal .undefined)] none none))]⟩

/-- The call of a procedure by its name. -/
def callByName : Value :=
  taggedFields .call [("procedure", variableTree "f"), ("arguments", .list [])]

/-- A program without the mark and a host that does not answer with it, which is passed it all the
same: the procedure comes with the environment. -/
theorem brought_in_mark :
    let m₀ : Machine Unit := ⟨#[.empty], [], [], false, "", ()⟩
    callByName.isJson = true ∧ AnswersDefined (some lister) ∧
    ∃ e, (Session.programs callByName).mapM Expr.ofValue = .ok [e] ∧
      ∃ t args values, Occurs (some lister) 9 [e] withMarkedEffect m₀ t ∧
        t.Passes (some lister) args values ∧ (.str "x", .undefined) ∈ values := by
  intro m₀
  refine ⟨by decide, lister_answersDefined, .call (.variable "f") [], rfl, ?_⟩
  have hbody : Part (some lister) ⟨9, .call (.variable "f") [], withMarkedEffect, m₀⟩ _ _ :=
    .body rfl rfl
  exact ⟨_, _, _, ⟨_, .first, .single ⟨_, hbody⟩⟩,
    ⟨_, _, _, _, _, rfl, rfl, rfl⟩, List.mem_cons_self⟩

end TreeScript
