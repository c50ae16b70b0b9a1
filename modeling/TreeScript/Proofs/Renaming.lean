import TreeScript.Proofs.Basic
import TreeScript.Session

/-!
# Renaming closures

A closure refers to its scope by a number. Programs cannot see this number: what they compute from
values in which the closures have other numbers is the same, up to these numbers. To say so,
`rename g x` is `x` with every reference `r` in it replaced by `g r`, for values, programs and all
that is made of them.

`Follows f known x y` relates what one run holds to what another holds in its place: `y` is `x` with
its references renamed by `f`, and `x` has no references other than known ones. It is said by
renamings alone: every renaming that agrees with `f` on the known references takes `x` to `y`.
-/

namespace TreeScript

/-- What can hold closures, with the renaming of the references in it. -/
class Renames (α : Type) where
  /-- Replaces every reference. -/
  rename : (ScopeRef → ScopeRef) → α → α

export Renames (rename)

mutual

/-- A value with other references. -/
def Value.renamed (g : ScopeRef → ScopeRef) : Value → Value
  | .list items => .list (renamedItems g items)
  | .tuple items => .tuple (renamedItems g items)
  | .map entries => .map (renamedEntries g entries)
  | .set items => .set (renamedItems g items)
  | .closure ref inputs body => .closure (g ref) inputs (Expr.renamed g body)
  | .node e => .node (Expr.renamed g e)
  | .literal v => .literal (Value.renamed g v)
  | .env bindings => .env (renamedEntries g bindings)
  | .object attributes => .object (renamedEntries g attributes)
  | .null => .null
  | .bool b => .bool b
  | .int i => .int i
  | .float x => .float x
  | .str s => .str s
  | .bytes octets => .bytes octets
  | .date day => .date day
  | .datetime time => .datetime time
  | .undefined => .undefined
termination_by structural v => v

/-- Values with other references. -/
def renamedItems (g : ScopeRef → ScopeRef) : List Value → List Value
  | [] => []
  | v :: rest => Value.renamed g v :: renamedItems g rest
termination_by structural vs => vs

/-- Entries with other references. -/
def renamedEntries (g : ScopeRef → ScopeRef) : List (Value × Value) → List (Value × Value)
  | [] => []
  | (k, v) :: rest => (Value.renamed g k, Value.renamed g v) :: renamedEntries g rest
termination_by structural es => es

/-- A program with other references, which are in the literals of its effects. -/
def Expr.renamed (g : ScopeRef → ScopeRef) : Expr → Expr
  | .number n => .number n
  | .string s => .string s
  | .boolean b => .boolean b
  | .variable key => .variable key
  | .arithmetic op operands => .arithmetic op (renamedExprs g operands)
  | .comparison op operands => .comparison op (renamedExprs g operands)
  | .conditional condition onTrue onFalse =>
    .conditional (Expr.renamed g condition) (Expr.renamed g onTrue) (Expr.renamed g onFalse)
  | .procedure inputs body => .procedure inputs (Expr.renamed g body)
  | .call callee arguments => .call (Expr.renamed g callee) (renamedExprs g arguments)
  | .definition key value => .definition key (Expr.renamed g value)
  | .effect name args bind next => .effect name (renamedArgs g args) bind (renamedNext g next)
  | .block items => .block (renamedExprs g items)
termination_by structural e => e

/-- Programs with other references. -/
def renamedExprs (g : ScopeRef → ScopeRef) : List Expr → List Expr
  | [] => []
  | e :: rest => Expr.renamed g e :: renamedExprs g rest
termination_by structural es => es

/-- Arguments of an effect with other references. -/
def renamedArgs (g : ScopeRef → ScopeRef) : List (Value × Arg) → List (Value × Arg)
  | [] => []
  | (k, a) :: rest => (Value.renamed g k, Arg.renamed g a) :: renamedArgs g rest
termination_by structural as => as

/-- An argument of an effect with other references. -/
def Arg.renamed (g : ScopeRef → ScopeRef) : Arg → Arg
  | .literal v => .literal (Value.renamed g v)
  | .expr e => .expr (Expr.renamed g e)
termination_by structural a => a

/-- What an effect goes on with, with other references. -/
def renamedNext (g : ScopeRef → ScopeRef) : Option Expr → Option Expr
  | none => none
  | some e => some (Expr.renamed g e)
termination_by structural e => e

end

instance : Renames Value := ⟨Value.renamed⟩
instance : Renames Expr := ⟨Expr.renamed⟩
instance : Renames Arg := ⟨Arg.renamed⟩
instance : Renames String := ⟨fun _ s => s⟩
instance : Renames Bool := ⟨fun _ b => b⟩
instance : Renames Unit := ⟨fun _ u => u⟩

instance {α : Type} [Renames α] : Renames (List α) := ⟨fun g xs => xs.map (rename g)⟩

instance {α : Type} [Renames α] : Renames (Option α) := ⟨fun g x => x.map (rename g)⟩

instance {α β : Type} [Renames α] [Renames β] : Renames (α × β) :=
  ⟨fun g p => (rename g p.1, rename g p.2)⟩

instance {ε α : Type} [Renames α] : Renames (Except ε α) := ⟨fun g x => rename g <$> x⟩

instance : Renames Environment := ⟨fun g env => ⟨rename g env.bindings⟩⟩

instance : Renames Frame := ⟨fun g frame => ⟨frame.name, rename g frame.args⟩⟩

/-- An entry of a log with other references. -/
def Record.renamed (g : ScopeRef → ScopeRef) : Record → Record
  | .effect name args => .effect (rename g name) (rename g args)
  | .output message => .output (rename g message)
  | .error message => .error message

instance : Renames Record := ⟨Record.renamed⟩

/-- A report with other references. -/
def Report.renamed (g : ScopeRef → ScopeRef) : Report → Report
  | .success results => .success (rename g results)
  | .error message => .error message

instance : Renames Report := ⟨Report.renamed⟩

section

variable (g : ScopeRef → ScopeRef)

theorem renamedItems_eq (vs : List Value) : renamedItems g vs = rename g vs := by
  induction vs with
  | nil => rw [renamedItems]; rfl
  | cons v rest ih => rw [renamedItems, ih]; rfl

theorem renamedEntries_eq (es : Bindings) : renamedEntries g es = rename g es := by
  induction es with
  | nil => rw [renamedEntries]; rfl
  | cons e rest ih => rw [renamedEntries, ih]; rfl

theorem renamedExprs_eq (es : List Expr) : renamedExprs g es = rename g es := by
  induction es with
  | nil => rw [renamedExprs]; rfl
  | cons e rest ih => rw [renamedExprs, ih]; rfl

theorem renamedArgs_eq (as : List (Value × Arg)) : renamedArgs g as = rename g as := by
  induction as with
  | nil => rw [renamedArgs]; rfl
  | cons a rest ih => rw [renamedArgs, ih]; rfl

theorem renamedNext_eq (next : Option Expr) : renamedNext g next = rename g next := by
  cases next <;> rw [renamedNext] <;> rfl

@[simp]
theorem rename_null : rename g Value.null = .null := rfl

@[simp]
theorem rename_bool (b : Bool) : rename g (Value.bool b) = .bool b := rfl

@[simp]
theorem rename_int (i : Int) : rename g (Value.int i) = .int i := rfl

@[simp]
theorem rename_float (x : Binary64) : rename g (Value.float x) = .float x := rfl

@[simp]
theorem rename_str (s : String) : rename g (Value.str s) = .str s := rfl

@[simp]
theorem rename_bytes (octets : List UInt8) : rename g (Value.bytes octets) = .bytes octets := rfl

@[simp]
theorem rename_date (day : Date) : rename g (Value.date day) = .date day := rfl

@[simp]
theorem rename_datetime (time : DateTime) : rename g (Value.datetime time) = .datetime time := rfl

@[simp]
theorem rename_undefined : rename g Value.undefined = .undefined := rfl

@[simp]
theorem rename_list (items : List Value) : rename g (Value.list items) = .list (rename g items) :=
  congrArg Value.list (renamedItems_eq g items)

@[simp]
theorem rename_tuple (items : List Value) :
    rename g (Value.tuple items) = .tuple (rename g items) :=
  congrArg Value.tuple (renamedItems_eq g items)

@[simp]
theorem rename_set (items : List Value) : rename g (Value.set items) = .set (rename g items) :=
  congrArg Value.set (renamedItems_eq g items)

@[simp]
theorem rename_map (entries : Bindings) : rename g (Value.map entries) = .map (rename g entries) :=
  congrArg Value.map (renamedEntries_eq g entries)

@[simp]
theorem rename_env (bindings : Bindings) :
    rename g (Value.env bindings) = .env (rename g bindings) :=
  congrArg Value.env (renamedEntries_eq g bindings)

@[simp]
theorem rename_object (attributes : Bindings) :
    rename g (Value.object attributes) = .object (rename g attributes) :=
  congrArg Value.object (renamedEntries_eq g attributes)

@[simp]
theorem rename_closure (ref : ScopeRef) (inputs : List String) (body : Expr) :
    rename g (Value.closure ref inputs body) = .closure (g ref) inputs (rename g body) := rfl

@[simp]
theorem rename_node (e : Expr) : rename g (Value.node e) = .node (rename g e) := rfl

@[simp]
theorem rename_literal (v : Value) : rename g (Value.literal v) = .literal (rename g v) := rfl

@[simp]
theorem rename_number (n : Number) : rename g (Expr.number n) = .number n := rfl

@[simp]
theorem rename_string (s : String) : rename g (Expr.string s) = .string s := rfl

@[simp]
theorem rename_boolean (b : Bool) : rename g (Expr.boolean b) = .boolean b := rfl

@[simp]
theorem rename_variable (key : String) : rename g (Expr.variable key) = .variable key := rfl

@[simp]
theorem rename_arithmetic (op : ArithmeticOp) (operands : List Expr) :
    rename g (Expr.arithmetic op operands) = .arithmetic op (rename g operands) :=
  congrArg (Expr.arithmetic op) (renamedExprs_eq g operands)

@[simp]
theorem rename_comparison (op : ComparisonOp) (operands : List Expr) :
    rename g (Expr.comparison op operands) = .comparison op (rename g operands) :=
  congrArg (Expr.comparison op) (renamedExprs_eq g operands)

@[simp]
theorem rename_conditional (condition onTrue onFalse : Expr) :
    rename g (Expr.conditional condition onTrue onFalse) =
      .conditional (rename g condition) (rename g onTrue) (rename g onFalse) := rfl

@[simp]
theorem rename_procedure (inputs : List String) (body : Expr) :
    rename g (Expr.procedure inputs body) = .procedure inputs (rename g body) := rfl

@[simp]
theorem rename_call (callee : Expr) (arguments : List Expr) :
    rename g (Expr.call callee arguments) = .call (rename g callee) (rename g arguments) :=
  congrArg (Expr.call (rename g callee)) (renamedExprs_eq g arguments)

@[simp]
theorem rename_definition (key : String) (value : Expr) :
    rename g (Expr.definition key value) = .definition key (rename g value) := rfl

@[simp]
theorem rename_effect (name : String) (args : List (Value × Arg)) (bind : Option String)
    (next : Option Expr) :
    rename g (Expr.effect name args bind next) =
      .effect name (rename g args) bind (rename g next) := by
  rw [← renamedArgs_eq, ← renamedNext_eq]
  rfl

@[simp]
theorem rename_block (items : List Expr) : rename g (Expr.block items) = .block (rename g items) :=
  congrArg Expr.block (renamedExprs_eq g items)

@[simp]
theorem rename_argLiteral (v : Value) : rename g (Arg.literal v) = .literal (rename g v) := rfl

@[simp]
theorem rename_argExpr (e : Expr) : rename g (Arg.expr e) = .expr (rename g e) := rfl

@[simp]
theorem rename_text (s : String) : rename g s = s := rfl

section

variable {α β : Type} [Renames α] [Renames β]

@[simp]
theorem rename_nil : rename g ([] : List α) = [] := rfl

@[simp]
theorem rename_cons (a : α) (rest : List α) : rename g (a :: rest) = rename g a :: rename g rest :=
  rfl

@[simp]
theorem rename_append (as bs : List α) : rename g (as ++ bs) = rename g as ++ rename g bs :=
  List.map_append

@[simp]
theorem length_rename (as : List α) : (rename g as).length = as.length := List.length_map _

@[simp]
theorem isEmpty_rename (as : List α) : (rename g as).isEmpty = as.isEmpty := by
  cases as <;> rfl

@[simp]
theorem rename_none : rename g (none : Option α) = none := rfl

@[simp]
theorem rename_some (a : α) : rename g (some a) = some (rename g a) := rfl

@[simp]
theorem rename_pair (a : α) (b : β) : rename g (a, b) = (rename g a, rename g b) := rfl

@[simp]
theorem rename_ok {ε : Type} (a : α) : rename g (.ok a : Except ε α) = .ok (rename g a) := rfl

@[simp]
theorem rename_error {ε : Type} (e : ε) : rename g (.error e : Except ε α) = .error e := rfl

/-- A renamed sequence, of which the second part sees the renamed result of the first. -/
theorem rename_bind {x : Result α} {f f' : α → Result β}
    (h : ∀ a, rename g (f a) = f' (rename g a)) :
    rename g (x >>= f) = rename g x >>= f' := by
  cases x with
  | error failure => rfl
  | ok a => exact h a

/-- A renamed sequence, of which the first part gives nothing that could be renamed. -/
theorem rename_bind_right {ι : Type} {x : Result ι} {f f' : ι → Result β}
    (h : ∀ i, rename g (f i) = f' i) : rename g (x >>= f) = x >>= f' := by
  cases x with
  | error failure => rfl
  | ok i => exact h i

theorem mapM_rename {h : α → Result β} (hh : ∀ a, h (rename g a) = rename g (h a)) (as : List α) :
    (rename g as).mapM h = rename g (as.mapM h) := by
  induction as with
  | nil => rfl
  | cons a rest ih =>
    rw [rename_cons, List.mapM_cons, List.mapM_cons, hh, ih]
    refine (rename_bind g fun b => ?_).symm
    refine rename_bind g fun bs => ?_
    rfl

/-- The same for results that hold nothing to be renamed. -/
theorem mapM_rename_right {ι : Type} {h : α → Result ι} (hh : ∀ a, h (rename g a) = h a)
    (as : List α) : (rename g as).mapM h = as.mapM h := by
  induction as with
  | nil => rfl
  | cons a rest ih => rw [rename_cons, List.mapM_cons, List.mapM_cons, hh, ih]

end

end

/-! ## What holds known closures only -/

/-- `y` is `x` with its references renamed by `f`, and all references in `x` are known. -/
def Follows {α : Type} [Renames α] (f : ScopeRef → ScopeRef) (known : ScopeRef → Prop) (x y : α) :
    Prop :=
  ∀ g, (∀ r, known r → g r = f r) → rename g x = y

namespace Follows

variable {α β γ : Type} [Renames α] [Renames β] [Renames γ]
variable {f : ScopeRef → ScopeRef} {known : ScopeRef → Prop}

theorem rename_eq {x y : α} (h : Follows f known x y) : rename f x = y := h f fun _ _ => rfl

/-- What is computed without a look at references follows if what it is computed from does. -/
theorem apply {a a' : α} (ha : Follows f known a a') (h : α → β)
    (hh : ∀ g a, h (rename g a) = rename g (h a)) : Follows f known (h a) (h a') := by
  intro g hg
  rw [← hh, ha g hg]

theorem apply₂ {a a' : α} {b b' : β} (ha : Follows f known a a') (hb : Follows f known b b')
    (h : α → β → γ) (hh : ∀ g a b, h (rename g a) (rename g b) = rename g (h a b)) :
    Follows f known (h a b) (h a' b') := by
  intro g hg
  rw [← hh, ha g hg, hb g hg]

/-- What a part of something follows is found where the part stands. -/
theorem part {x : α} {z : β} {y : β} (h : Follows f known z y)
    (hpart : ∀ g g', rename g z = rename g' z → rename g x = rename g' x) :
    Follows f known x (rename f x) := by
  intro g hg
  exact hpart g f ((h g hg).trans h.rename_eq.symm)

theorem nil : Follows f known ([] : List α) [] := fun _ _ => rfl

theorem cons {a a' : α} {as as' : List α} (ha : Follows f known a a')
    (has : Follows f known as as') : Follows f known (a :: as) (a' :: as') :=
  ha.apply₂ has List.cons fun _ _ _ => rfl

theorem append {as as' bs bs' : List α} (has : Follows f known as as')
    (hbs : Follows f known bs bs') : Follows f known (as ++ bs) (as' ++ bs') :=
  has.apply₂ hbs (· ++ ·) fun g as bs => (rename_append g as bs).symm

theorem pair {a a' : α} {b b' : β} (ha : Follows f known a a') (hb : Follows f known b b') :
    Follows f known (a, b) (a', b') :=
  ha.apply₂ hb Prod.mk fun _ _ _ => rfl

theorem fst {p p' : α × β} (h : Follows f known p p') : Follows f known p.1 p'.1 :=
  fun g hg => congrArg Prod.fst (h g hg)

theorem snd {p p' : α × β} (h : Follows f known p p') : Follows f known p.2 p'.2 :=
  fun g hg => congrArg Prod.snd (h g hg)

/-- Computations that follow each other end in the same way. -/
theorem outcomes {ε : Type} {x y : Except ε α} (h : Follows f known x y) :
    (∃ e, x = .error e ∧ y = .error e) ∨
      ∃ a b, x = .ok a ∧ y = .ok b ∧ Follows f known a b := by
  have hy : rename f x = y := h.rename_eq
  cases x with
  | error e => exact .inl ⟨e, rfl, hy.symm⟩
  | ok a => exact .inr ⟨a, rename f a, rfl, hy.symm, h.part fun g g' h => Except.ok.inj h⟩

theorem closure {ref : ScopeRef} {inputs : List String} {body body' : Expr} (href : known ref)
    (hbody : Follows f known body body') :
    Follows f known (Value.closure ref inputs body) (.closure (f ref) inputs body') := by
  intro g hg
  rw [rename_closure, hg ref href, hbody g hg]

/-- The only references of a closure are that to its scope, which is known, and those in its body.
-/
theorem of_closure {ref : ScopeRef} {inputs : List String} {body : Expr} {v : Value}
    (h : Follows f known (.closure ref inputs body) v) :
    known ref ∧ v = .closure (f ref) inputs (rename f body) ∧
      Follows f known body (rename f body) := by
  refine ⟨?_, h.rename_eq.symm, ?_⟩
  · -- A renaming that moves what is not known has to leave the scope where it is.
    refine Classical.byContradiction fun hunknown => ?_
    classical
    let g : ScopeRef → ScopeRef := fun r => if known r then f r else f r + 1
    have hg := h g fun r hr => if_pos hr
    rw [← h.rename_eq, rename_closure, rename_closure, Value.closure.injEq] at hg
    have hmoved : g ref = f ref + 1 := if_neg hunknown
    exact Nat.succ_ne_self (f ref) (hmoved.symm.trans hg.1)
  · refine h.part fun g g' hgg => ?_
    rw [rename_closure, rename_closure, Value.closure.injEq] at hgg
    exact hgg.2.2

end Follows

end TreeScript
