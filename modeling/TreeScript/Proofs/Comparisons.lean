import Mathlib
import TreeScript.Proofs.JsonValues
import TreeScript.Proofs.Runs
import TreeScript.Proofs.Steps

/-!
# Comparing many operands

A comparison of many operands looks at neighbours only. That this tells something about any two of
the operands rests on the relation between them being transitive (`ComparisonOp.chain_map`).

For integers in order this is clear. For sameness it is less so: a truth value is not the same as a
number, but inside of lists and maps the two are compared as numbers, and maps are compared without
regard to the order of their entries. On documents equality is an equivalence nevertheless. Two maps
of documents have different keys each, so if every key of the first is among as many of the second,
these are all (`exists_entry_of_subset`), and an entry of one is matched by one entry of the other.
-/

namespace TreeScript

/-! ## Documents -/

theorem documentItems_iff {items : List Value} :
    documentItems items = true ↔ ∀ v ∈ items, v.isDocument = true := by
  induction items with
  | nil => simp [documentItems]
  | cons v rest ih => simp [documentItems, ih]

/-- The keys of a map of documents are different texts. -/
theorem documentEntries_iff {entries : List (Value × Value)} :
    documentEntries entries = true ↔
      (∀ entry ∈ entries, (∃ key, entry.1 = .str key) ∧ entry.2.isDocument = true) ∧
        (entries.map Prod.fst).Nodup := by
  induction entries with
  | nil => simp [documentEntries]
  | cons entry rest ih =>
    obtain ⟨k, v⟩ := entry
    cases k with
    | str key =>
      have hnew : Bindings.has rest (.str key) = false ↔ Value.str key ∉ rest.map Prod.fst := by
        rw [Bindings.has_eq_any, List.any_eq_false]
        simp only [Value.alike_str_iff, List.mem_map, not_exists, not_and]
      simp only [documentEntries, Bool.and_eq_true, Bool.not_eq_true', hnew, ih, List.map_cons,
        List.nodup_cons, List.forall_mem_cons]
      constructor
      · rintro ⟨⟨hkey, hv⟩, hrest, hnodup⟩
        exact ⟨⟨⟨⟨key, rfl⟩, hv⟩, hrest⟩, hkey, hnodup⟩
      · rintro ⟨⟨⟨-, hv⟩, hrest⟩, hkey, hnodup⟩
        exact ⟨⟨hkey, hv⟩, hrest, hnodup⟩
    | _ => simp [documentEntries]

theorem Value.isDocument_of_integer? {v : Value} {i : Int} (h : v.integer? = some i) :
    v.isDocument = true := by
  cases v with
  | bool b => rfl
  | int j => rfl
  | _ => simp [integer?] at h

/-- Induction over documents. Truth values and integers are one case, since they are compared as
numbers. -/
@[elab_as_elim]
theorem Value.document_induction {motive : (v : Value) → v.isDocument = true → Prop}
    (null : motive .null rfl)
    (integer : ∀ v i (hi : v.integer? = some i), motive v (isDocument_of_integer? hi))
    (str : ∀ s, motive (.str s) rfl)
    (list : ∀ items (h : (Value.list items).isDocument = true),
      (∀ v ∈ items, ∀ hv, motive v hv) → motive (.list items) h)
    (map : ∀ entries (h : (Value.map entries).isDocument = true),
      (∀ entry ∈ entries, ∀ hv, motive entry.2 hv) → motive (.map entries) h)
    (v : Value) (hv : v.isDocument = true) : motive v hv := by
  match v, hv with
  | .null, _ => exact null
  | .bool b, _ => exact integer (.bool b) _ rfl
  | .int i, _ => exact integer (.int i) i rfl
  | .str s, _ => exact str s
  | .list items, hv =>
    refine list items hv fun w hw hw' => ?_
    have hlt := List.sizeOf_lt_of_mem hw
    exact document_induction null integer str list map w hw'
  | .map entries, hv =>
    refine map entries hv fun entry hentry hw => ?_
    have hlt := List.sizeOf_lt_of_mem hentry
    obtain ⟨k, w⟩ := entry
    exact document_induction null integer str list map w hw
termination_by sizeOf v
decreasing_by
  · simp
    omega
  · simp at hlt ⊢
    omega

/-! ## Equality -/

/-- A document that counts as an integer is equal to those that count as the same. -/
theorem Value.equal_integer_iff {a b : Value} {i : Int} (ha : a.integer? = some i)
    (hb : b.isDocument = true) : a.equal b = true ↔ b.integer? = some i := by
  have hcompare : ∀ j, Number.equal (.int i) (.int j) = true ↔ j = i := by
    intro j
    have h : Number.equal (.int i) (.int j) = true ↔ i = j := by
      simp [Number.equal, Number.compare?]
    exact h.trans eq_comm
  have hequal : a.equal b = Number.equalValue (.int i) b := by
    cases a with
    | bool c =>
      cases ha
      rw [Value.equal]
    | int j =>
      cases ha
      rw [Value.equal]
    | _ => simp [integer?] at ha
  rw [hequal, Number.equalValue]
  cases b with
  | bool c => simp [number?, integer?, hcompare]
  | int j => simp [number?, integer?, hcompare]
  | float x => simp [isDocument] at hb
  | _ => simp [number?, integer?]

theorem Value.equal_null_iff {b : Value} : Value.null.equal b = true ↔ b = .null := by
  cases b with
  | null => simp [Value.equal]
  | _ => simp [Value.equal]

theorem Value.equal_str_iff {s : String} {b : Value} :
    (Value.str s).equal b = true ↔ b = .str s := by
  cases b with
  | str t => rw [Value.equal, beq_iff_eq, Value.str.injEq, eq_comm]
  | _ => simp [Value.equal]

/-- Parts of documents are compared like documents. -/
theorem Value.alike_document {a : Value} (ha : a.isDocument = true) (b : Value) :
    a.alike b = a.equal b := by
  cases a with
  | float x => simp [isDocument] at ha
  | _ => simp [alike, sameNaN]

theorem equalItems_iff {as bs : List Value} (has : documentItems as = true) :
    equalItems as bs = true ↔ List.Forall₂ (fun a b => a.equal b = true) as bs := by
  induction as generalizing bs with
  | nil => cases bs <;> simp [equalItems]
  | cons a as ih =>
    rw [documentItems, Bool.and_eq_true] at has
    cases bs with
    | nil => simp [equalItems]
    | cons b bs =>
      have halike : (Value.sameNaN a b || Value.equal a b) = a.equal b :=
        Value.alike_document has.1 b
      rw [equalItems, halike, Bool.and_eq_true, ih has.2, List.forall₂_cons]

/-- A list of documents is equal to the lists that have equal elements in its places. -/
theorem Value.equal_list_iff {as : List Value} {b : Value}
    (has : (Value.list as).isDocument = true) :
    (Value.list as).equal b = true ↔
      ∃ bs, b = .list bs ∧ List.Forall₂ (fun a b => a.equal b = true) as bs := by
  rw [isDocument] at has
  cases b with
  | list bs => simp [Value.equal, equalItems_iff has]
  | _ => simp [Value.equal]

theorem entriesWithin_iff {as bs : List (Value × Value)} (has : documentEntries as = true) :
    entriesWithin as bs = true ↔
      ∀ entry ∈ as, ∃ w, (entry.1, w) ∈ bs ∧ entry.2.equal w = true := by
  induction as with
  | nil => simp [entriesWithin]
  | cons entry rest ih =>
    obtain ⟨k, v⟩ := entry
    cases k with
    | str key =>
      simp only [documentEntries, Bool.and_eq_true] at has
      obtain ⟨⟨-, hv⟩, hrest⟩ := has
      have hfirst : (bs.any fun b => (Value.sameNaN (.str key) b.1 || Value.equal (.str key) b.1) &&
          (Value.sameNaN v b.2 || Value.equal v b.2)) = true ↔
          ∃ w, (.str key, w) ∈ bs ∧ v.equal w = true := by
        rw [List.any_eq_true]
        constructor
        · rintro ⟨⟨k, w⟩, hmem, h⟩
          obtain ⟨hk, hw⟩ := Bool.and_eq_true_iff.1 h
          obtain rfl : k = .str key := (Value.alike_str_iff key k).1 hk
          exact ⟨w, hmem, (Value.alike_document hv w).symm.trans hw⟩
        · rintro ⟨w, hmem, hw⟩
          refine ⟨(.str key, w), hmem, Bool.and_eq_true_iff.2 ⟨?_, ?_⟩⟩
          · exact (Value.alike_str_iff key _).2 rfl
          · exact (Value.alike_document hv w).trans hw
      rw [entriesWithin, Bool.and_eq_true, hfirst, ih hrest, List.forall_mem_cons]
    | _ => simp [documentEntries] at has

/-- A map of documents is equal to the documents that are maps with as many entries and have, for
each of its entries, an equal one under the same key. -/
theorem Value.equal_map_iff {as : List (Value × Value)} {b : Value}
    (has : (Value.map as).isDocument = true) (hb : b.isDocument = true) :
    (Value.map as).equal b = true ↔
      ∃ bs, b = .map bs ∧ as.length = bs.length ∧
        ∀ entry ∈ as, ∃ w, (entry.1, w) ∈ bs ∧ entry.2.equal w = true := by
  rw [isDocument] at has
  cases b with
  | map bs => simp [Value.equal, entriesWithin_iff has]
  | env bs => simp [isDocument] at hb
  | _ => simp [Value.equal]

theorem Value.equal_refl (v : Value) (hv : v.isDocument = true) : v.equal v = true := by
  induction v, hv using Value.document_induction with
  | null => exact equal_null_iff.2 rfl
  | integer v i hi => exact (equal_integer_iff hi (isDocument_of_integer? hi)).2 hi
  | str s => exact equal_str_iff.2 rfl
  | list items h ih =>
    have hitems : ∀ v ∈ items, v.isDocument = true := by
      rw [isDocument] at h
      exact documentItems_iff.1 h
    refine (equal_list_iff h).2 ⟨items, rfl, List.forall₂_same.2 fun v hv => ?_⟩
    exact ih v hv (hitems v hv)
  | map entries h ih =>
    refine (equal_map_iff h h).2 ⟨entries, rfl, rfl, fun entry hentry => ?_⟩
    rw [isDocument] at h
    exact ⟨entry.2, hentry, ih entry hentry ((documentEntries_iff.1 h).1 entry hentry).2⟩

/-- If different keys are among as many keys, then they are all of these. -/
theorem exists_entry_of_subset {as bs : List (Value × Value)} (has : documentEntries as = true)
    (hlength : as.length = bs.length) (hsubset : as.map Prod.fst ⊆ bs.map Prod.fst)
    {entry : Value × Value} (hentry : entry ∈ bs) : ∃ v, (entry.1, v) ∈ as := by
  have hnodup : (as.map Prod.fst).Nodup := (documentEntries_iff.1 has).2
  have hperm : (as.map Prod.fst).Perm (bs.map Prod.fst) :=
    (List.subperm_of_subset hnodup hsubset).perm_of_length_le (by simp [hlength])
  have hkey : entry.1 ∈ as.map Prod.fst := hperm.mem_iff.2 (List.mem_map_of_mem hentry)
  obtain ⟨⟨k, v⟩, hmem, rfl⟩ := List.mem_map.1 hkey
  exact ⟨v, hmem⟩

theorem Value.equal_symm (a : Value) (ha : a.isDocument = true) (b : Value)
    (hb : b.isDocument = true) (h : a.equal b = true) : b.equal a = true := by
  induction a, ha using Value.document_induction generalizing b with
  | null =>
    obtain rfl := equal_null_iff.1 h
    exact h
  | integer a i hi =>
    have hbi : b.integer? = some i := (equal_integer_iff hi hb).1 h
    exact (equal_integer_iff hbi (isDocument_of_integer? hi)).2 hi
  | str s =>
    obtain rfl := equal_str_iff.1 h
    exact h
  | list as has ih =>
    obtain ⟨bs, rfl, hitems⟩ := (equal_list_iff has).1 h
    obtain ⟨hlength, hget⟩ := List.forall₂_iff_get.1 hitems
    refine (equal_list_iff hb).2 ⟨as, rfl, List.forall₂_iff_get.2 ⟨hlength.symm, ?_⟩⟩
    intro i hi hi'
    rw [isDocument] at has hb
    have hmem := List.get_mem as ⟨i, hi'⟩
    exact ih _ hmem (documentItems_iff.1 has _ hmem) _
      (documentItems_iff.1 hb _ (List.get_mem bs ⟨i, hi⟩)) (hget i hi' hi)
  | map as has ih =>
    obtain ⟨bs, rfl, hlength, hwithin⟩ := (equal_map_iff has hb).1 h
    refine (equal_map_iff hb has).2 ⟨as, rfl, hlength.symm, fun entry hentry => ?_⟩
    rw [isDocument] at has hb
    have hsubset : as.map Prod.fst ⊆ bs.map Prod.fst := by
      intro k hk
      obtain ⟨e, he, rfl⟩ := List.mem_map.1 hk
      obtain ⟨w, hw, -⟩ := hwithin e he
      exact List.mem_map.2 ⟨_, hw, rfl⟩
    obtain ⟨v, hv⟩ := exists_entry_of_subset has hlength hsubset hentry
    obtain ⟨w, hw, hvw⟩ := hwithin _ hv
    -- the keys of the second map are different, so that the entries under this key are one
    have hsame : (entry.1, w) = entry :=
      List.inj_on_of_nodup_map (documentEntries_iff.1 hb).2 hw hentry rfl
    obtain rfl : w = entry.2 := congrArg Prod.snd hsame
    exact ⟨v, hv, ih _ hv ((documentEntries_iff.1 has).1 _ hv).2 _
      ((documentEntries_iff.1 hb).1 _ hentry).2 hvw⟩

theorem Value.equal_trans (a : Value) (ha : a.isDocument = true) (b c : Value)
    (hb : b.isDocument = true) (hc : c.isDocument = true) (hab : a.equal b = true)
    (hbc : b.equal c = true) : a.equal c = true := by
  induction a, ha using Value.document_induction generalizing b c with
  | null =>
    obtain rfl := equal_null_iff.1 hab
    exact hbc
  | integer a i hi =>
    have hbi : b.integer? = some i := (equal_integer_iff hi hb).1 hab
    exact (equal_integer_iff hi hc).2 ((equal_integer_iff hbi hc).1 hbc)
  | str s =>
    obtain rfl := equal_str_iff.1 hab
    exact hbc
  | list as has ih =>
    obtain ⟨bs, rfl, has'⟩ := (equal_list_iff has).1 hab
    obtain ⟨cs, rfl, hbs'⟩ := (equal_list_iff hb).1 hbc
    obtain ⟨hlength, hget⟩ := List.forall₂_iff_get.1 has'
    obtain ⟨hlength', hget'⟩ := List.forall₂_iff_get.1 hbs'
    refine (equal_list_iff has).2
      ⟨cs, rfl, List.forall₂_iff_get.2 ⟨hlength.trans hlength', fun i hi hi' => ?_⟩⟩
    rw [isDocument] at has hb hc
    have hmid : i < bs.length := hlength ▸ hi
    have hmem := List.get_mem as ⟨i, hi⟩
    exact ih _ hmem (documentItems_iff.1 has _ hmem) _ _
      (documentItems_iff.1 hb _ (List.get_mem bs ⟨i, hmid⟩))
      (documentItems_iff.1 hc _ (List.get_mem cs ⟨i, hi'⟩)) (hget i hi hmid) (hget' i hmid hi')
  | map as has ih =>
    obtain ⟨bs, rfl, hlength, hwithin⟩ := (equal_map_iff has hb).1 hab
    obtain ⟨cs, rfl, hlength', hwithin'⟩ := (equal_map_iff hb hc).1 hbc
    refine (equal_map_iff has hc).2 ⟨cs, rfl, hlength.trans hlength', fun entry hentry => ?_⟩
    rw [isDocument] at has hb hc
    obtain ⟨v, hv, hequal⟩ := hwithin entry hentry
    obtain ⟨w, hw, hequal'⟩ := hwithin' _ hv
    exact ⟨w, hw, ih entry hentry ((documentEntries_iff.1 has).1 entry hentry).2 v w
      ((documentEntries_iff.1 hb).1 _ hv).2 ((documentEntries_iff.1 hc).1 _ hw).2 hequal hequal'⟩

/-! ## Sameness -/

/-- A value that JSON tells from all others. -/
abbrev DocumentValue := { v : Value // v.isDocument = true }

/-- Whether two documents are the same. -/
def DocumentValue.Same (v w : DocumentValue) : Prop := v.1.same w.1 = true

instance : DecidableRel DocumentValue.Same :=
  fun v w => inferInstanceAs (Decidable (v.1.same w.1 = true))

theorem DocumentValue.same_iff {v w : DocumentValue} :
    v.Same w ↔ v.1.isBool = w.1.isBool ∧ v.1.equal w.1 = true := by
  rw [Same, Value.same, Bool.and_eq_true, beq_iff_eq]

theorem DocumentValue.same_equivalence : Equivalence DocumentValue.Same where
  refl v := same_iff.2 ⟨rfl, v.1.equal_refl v.2⟩
  symm {v w} h := by
    obtain ⟨hbool, hequal⟩ := same_iff.1 h
    exact same_iff.2 ⟨hbool.symm, v.1.equal_symm v.2 w.1 w.2 hequal⟩
  trans {u v w} huv hvw := by
    obtain ⟨hbool, hequal⟩ := same_iff.1 huv
    obtain ⟨hbool', hequal'⟩ := same_iff.1 hvw
    exact same_iff.2
      ⟨hbool.trans hbool', u.1.equal_trans u.2 v.1 w.1 v.2 w.2 hequal hequal'⟩

instance : Std.Symm DocumentValue.Same where
  symm _ _ := DocumentValue.same_equivalence.symm

instance : Trans DocumentValue.Same DocumentValue.Same DocumentValue.Same where
  trans := DocumentValue.same_equivalence.trans

/-- Documents are the same pair by pair if any two of them are. -/
theorem DocumentValue.pairwise_same_iff {vs : List DocumentValue} :
    vs.Pairwise Same ↔ ∀ v ∈ vs, ∀ w ∈ vs, v.Same w := by
  constructor
  · intro h v hv w hw
    have hself : ∀ v ∈ vs, v.Same v := fun v _ => same_equivalence.refl v
    exact List.Pairwise.forall_of_forall hself h hv hw
  · intro h
    exact List.pairwise_of_forall_mem_list h

/-! ## Chains -/

/-- If an operator holds as a transitive relation has it, then looking at neighbours is enough to
know whether the relation holds between all earlier and later operands. -/
theorem ComparisonOp.chain_map {α : Type} {op : ComparisonOp} {f : α → Value} {R : α → α → Prop}
    [DecidableRel R] [Trans R R R] (h : ∀ a b, op.holds (f a) (f b) = .ok (decide (R a b)))
    (operands : List α) : op.chain (operands.map f) = .ok (decide (operands.Pairwise R)) := by
  have hchain : op.chain (operands.map f) = .ok (decide (operands.IsChain R)) := by
    induction operands with
    | nil => simp [chain]
    | cons a rest ih =>
      cases rest with
      | nil => simp [chain]
      | cons b rest =>
        rw [List.map_cons] at ih
        rw [List.map_cons, List.map_cons, chain, h a b, ih]
        by_cases hab : R a b
        · simp [hab]
        · simp [hab]
  rw [hchain]
  simp only [List.isChain_iff_pairwise]

/-- The comparison that asks for an order. -/
def OrderOp.comparison : OrderOp → ComparisonOp
  | .lt => .lt
  | .gt => .gt
  | .le => .le
  | .ge => .ge

/-- The order of integers that an operator asks for. -/
def OrderOp.Rel : OrderOp → Int → Int → Prop
  | .lt, i, j => i < j
  | .gt, i, j => i > j
  | .le, i, j => i ≤ j
  | .ge, i, j => i ≥ j

instance (op : OrderOp) : DecidableRel op.Rel := fun i j =>
  match op with
  | .lt => inferInstanceAs (Decidable (i < j))
  | .gt => inferInstanceAs (Decidable (i > j))
  | .le => inferInstanceAs (Decidable (i ≤ j))
  | .ge => inferInstanceAs (Decidable (i ≥ j))

instance (op : OrderOp) : Trans op.Rel op.Rel op.Rel where
  trans {i j k} hij hjk := by
    cases op <;> simp only [OrderOp.Rel] at * <;> omega

theorem OrderOp.accepts_compare_iff (op : OrderOp) (i j : Int) :
    op.accepts (compare i j) = true ↔ op.Rel i j := by
  rcases Int.lt_trichotomy i j with h | h | h
  · rw [Int.compare_eq_lt.2 h]
    cases op <;> simp [accepts, Rel] <;> omega
  · rw [Int.compare_eq_eq.2 h]
    cases op <;> simp [accepts, Rel] <;> omega
  · rw [Int.compare_eq_gt.2 h]
    cases op <;> simp [accepts, Rel] <;> omega

theorem OrderOp.comparison_holds_int (op : OrderOp) (i j : Int) :
    op.comparison.holds (.int i) (.int j) = .ok (decide (op.Rel i j)) := by
  have haccepts : op.accepts (compare i j) = decide (op.Rel i j) :=
    Bool.eq_iff_iff.2 ((op.accepts_compare_iff i j).trans decide_eq_true_iff.symm)
  cases op <;> exact congrArg Except.ok haccepts

theorem OrderOp.chain_ints (op : OrderOp) (is : List Int) :
    op.comparison.chain (is.map .int) = .ok (decide (is.Pairwise op.Rel)) :=
  ComparisonOp.chain_map op.comparison_holds_int is

theorem DocumentValue.chain_eq (vs : List DocumentValue) :
    ComparisonOp.eq.chain (vs.map Subtype.val) = .ok (decide (∀ v ∈ vs, ∀ w ∈ vs, v.Same w)) := by
  have hholds : ∀ v w : DocumentValue,
      ComparisonOp.eq.holds v.1 w.1 = .ok (decide (v.Same w)) := by
    intro v w
    exact congrArg Except.ok (Bool.eq_iff_iff.2 decide_eq_true_iff.symm)
  rw [ComparisonOp.chain_map hholds vs]
  simp only [pairwise_same_iff]

/-- What is above comes before what is below, the other way round. -/
theorem OrderOp.chain_reverse {op flipped : OrderOp} (h : ∀ i j, op.Rel i j ↔ flipped.Rel j i)
    (is : List Int) :
    op.comparison.chain (is.map .int) = flipped.comparison.chain (is.reverse.map .int) := by
  rw [chain_ints, chain_ints]
  refine congrArg Except.ok (decide_eq_decide.2 ?_)
  rw [List.pairwise_reverse]
  exact ⟨List.Pairwise.imp (h _ _).1, List.Pairwise.imp (h _ _).2⟩

/-! ## Evaluation -/

/-- The comparison of operands that have these values is true or false, and true exactly if `P`. -/
def ComparisonOp.Decides (op : ComparisonOp) (values : List Value) (P : Prop) : Prop :=
  ∃ b : Bool, (b = true ↔ P) ∧
    ∀ (σ : Type) (handler : Option (Handler σ)) (fuel : Nat) (env : Environment)
      (operands : List Expr) (m m' : Machine σ),
      (evalOperands handler fuel env operands).run.run m = (.ok values, m') →
        (eval handler (fuel + 1) (.comparison op operands) env).run.run m =
          (.ok (.bool b, env), m')

theorem ComparisonOp.decides_of_chain {op : ComparisonOp} {values : List Value} {P : Prop}
    [Decidable P] (h : op.chain values = .ok (decide P)) : op.Decides values P := by
  refine ⟨decide P, decide_eq_true_iff, fun σ handler fuel env operands m m' hvalues => ?_⟩
  rw [eval]
  refine Run.bind_eq_ok.2 ⟨values, m', hvalues, ?_⟩
  rw [h]
  rfl

/-- Sameness of documents is an equivalence. Documents compared for sameness give true exactly if
any two of them are the same, so that their order does not matter. Integers compared for an order
give true exactly if the order holds between each of them and all later ones; asking whether they
fall is asking whether they rise when read from the end. -/
theorem neighbours_decide :
    Equivalence DocumentValue.Same ∧
    (∀ vs : List DocumentValue,
      ComparisonOp.eq.Decides (vs.map Subtype.val) (∀ v ∈ vs, ∀ w ∈ vs, v.Same w)) ∧
    (∀ vs ws : List DocumentValue, vs.Perm ws →
      ComparisonOp.eq.chain (vs.map Subtype.val) = ComparisonOp.eq.chain (ws.map Subtype.val)) ∧
    (∀ (op : OrderOp) (is : List Int),
      op.comparison.Decides (is.map .int) (is.Pairwise op.Rel)) ∧
    ∀ is : List Int,
      ComparisonOp.gt.chain (is.map .int) = ComparisonOp.lt.chain (is.reverse.map .int) ∧
      ComparisonOp.ge.chain (is.map .int) = ComparisonOp.le.chain (is.reverse.map .int) := by
  refine ⟨DocumentValue.same_equivalence, ?_, ?_, ?_, ?_⟩
  · intro vs
    exact ComparisonOp.decides_of_chain (DocumentValue.chain_eq vs)
  · intro vs ws hperm
    rw [DocumentValue.chain_eq, DocumentValue.chain_eq]
    simp only [hperm.mem_iff]
  · intro op is
    exact ComparisonOp.decides_of_chain (op.chain_ints is)
  · intro is
    have hgt : ∀ i j, OrderOp.gt.Rel i j ↔ OrderOp.lt.Rel j i := fun i j => Iff.rfl
    have hge : ∀ i j, OrderOp.ge.Rel i j ↔ OrderOp.le.Rel j i := fun i j => Iff.rfl
    exact ⟨OrderOp.chain_reverse hgt is, OrderOp.chain_reverse hge is⟩

/-- Two maps that differ in the order of their keys, and in which numbers are truth values. -/
def mixedMaps : List DocumentValue :=
  [⟨.map [(.str "a", .int 1), (.str "b", .list [.bool true])], by decide⟩,
    ⟨.map [(.str "b", .list [.int 1]), (.str "a", .bool true)], by decide⟩]

theorem neighbours_decide_mixedMaps :
    let env := Environment.empty.extendMany
      (List.zip ["x", "y"] (mixedMaps.map Subtype.val))
    let operands : List Expr := [.variable "x", .variable "y"]
    let m : Machine Unit := ⟨#[], [], [], false, "", ()⟩
    (evalOperands none 1 env operands).run.run m = (.ok (mixedMaps.map Subtype.val), m) ∧
      (∀ v ∈ mixedMaps, ∀ w ∈ mixedMaps, v.Same w) ∧
      (eval none 2 (.comparison .eq operands) env).run.run m = (.ok (.bool true, env), m) ∧
      mixedMaps.Perm mixedMaps.reverse ∧
      ComparisonOp.eq.chain (mixedMaps.map Subtype.val) =
        ComparisonOp.eq.chain (mixedMaps.reverse.map Subtype.val) := by
  intro env operands m
  have hvalues : (evalOperands none 1 env operands).run.run m =
      (.ok (mixedMaps.map Subtype.val), m) := by
    cbv
  have hsame : ∀ v ∈ mixedMaps, ∀ w ∈ mixedMaps, v.Same w := by decide
  obtain ⟨-, hdecides, hperm, -⟩ := neighbours_decide
  obtain ⟨b, hb, heval⟩ := hdecides mixedMaps
  obtain rfl : b = true := hb.2 hsame
  exact ⟨hvalues, hsame, heval Unit none 1 env operands m m hvalues,
    (List.reverse_perm mixedMaps).symm, hperm _ _ (List.reverse_perm mixedMaps).symm⟩

end TreeScript
