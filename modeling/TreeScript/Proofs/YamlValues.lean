import TreeScript.Proofs.Basic
import TreeScript.Yaml.Reader

/-!
# Values of plain nodes

A node is plain if it has only the tags of lists and maps, keys that are scalars, and no mapping
takes in the entries of others. Its value is found in one pass over it (`Node.plainValue?`), while
reading in general looks at all scalars level by level first. For plain nodes the two agree: looking
at them finds nothing wrong, as there is a value for each of their scalars.
-/

namespace TreeScript.Yaml

mutual

/-- The value of a plain node. -/
def Node.plainValue? : Node → Option Value
  | .scalar tag text => (readScalar tag text).toOption
  | .sequence tag items => if tag = .seq then (plainItems? items).map .list else none
  | .mapping tag entries =>
    if tag = .map then (plainEntries? entries).map fun es => .map (Bindings.ofPairs es) else none
termination_by structural n => n

/-- The values of plain nodes. -/
def plainItems? : List Node → Option (List Value)
  | [] => some []
  | n :: rest => do
    let v ← Node.plainValue? n
    let vs ← plainItems? rest
    pure (v :: vs)
termination_by structural ns => ns

/-- The keys and values of plain nodes; a key is a scalar. -/
def plainEntries? : List (Node × Node) → Option (List (Value × Value))
  | [] => some []
  | (.scalar tag text, n) :: rest => do
    let k ← (readScalar tag text).toOption
    let v ← Node.plainValue? n
    let es ← plainEntries? rest
    pure ((k, v) :: es)
  | _ => none
termination_by structural es => es

end

theorem toOption_eq_some {ε α : Type} {x : Except ε α} {a : α} :
    x.toOption = some a ↔ x = .ok a := by
  cases x <;> simp [Except.toOption]

/-- A scalar that has a value is no collection and no key that stands for other entries. -/
theorem tag_of_readScalar {tag : Tag} {text : String} {v : Value}
    (h : readScalar tag text = .ok v) :
    tag.isCollection = false ∧ tag ≠ .merge ∧ tag ≠ .value := by
  cases tag <;> simp_all [readScalar, noValue, Tag.isCollection]

/-! ## Entries -/

/-- Steps that each put an element after the others put all of them there. -/
theorem foldlM_own {step : Merged → Node × Node → Outcome Merged} {entries : List (Node × Node)}
    (hstep : ∀ acc, ∀ e ∈ entries, step acc e = .ok { acc with own := acc.own ++ [e] })
    (acc : Merged) : entries.foldlM step acc = .ok { acc with own := acc.own ++ entries } := by
  induction entries generalizing acc with
  | nil =>
    rw [List.append_nil]
    rfl
  | cons e rest ih =>
    rw [List.foldlM_cons, hstep acc e List.mem_cons_self]
    show rest.foldlM step _ = _
    rw [ih fun acc e he => hstep acc e (List.mem_cons_of_mem _ he)]
    simp

/-- A mapping without keys that stand for other entries has its own entries only. -/
theorem flatten_eq {entries : List (Node × Node)}
    (h : ∀ e ∈ entries, e.1.tag ≠ .merge ∧ e.1.tag ≠ .value) (fuel : Nat) :
    flatten (fuel + 1) entries = .ok entries := by
  rw [flatten, foldlM_own]
  · rfl
  · intro acc e he
    obtain ⟨hmerge, hvalue⟩ := h e he
    split
    · rename_i htag
      exact absurd htag hmerge
    · rename_i htag
      exact absurd htag hvalue
    · rfl

theorem keys_of_plainEntries? {entries : List (Node × Node)} {es : List (Value × Value)}
    (h : plainEntries? entries = some es) :
    ∀ e ∈ entries, e.1.tag.isCollection = false ∧ e.1.tag ≠ .merge ∧ e.1.tag ≠ .value := by
  induction entries generalizing es with
  | nil => exact fun _ he => nomatch he
  | cons e rest ih =>
    obtain ⟨k, n⟩ := e
    cases k with
    | sequence tag items => simp [plainEntries?] at h
    | mapping tag inner => simp [plainEntries?] at h
    | scalar tag text =>
      simp only [plainEntries?, Option.bind_eq_bind, Option.bind_eq_some_iff] at h
      obtain ⟨key, hkey, v, -, others, hothers, -⟩ := h
      refine List.forall_mem_cons.2 ⟨tag_of_readScalar (toOption_eq_some.1 hkey), ih hothers⟩

/-! ## The value of a node -/

theorem valueOf_scalar (fuel : Nat) (tag : Tag) (text : String) :
    valueOf (fuel + 1) (.scalar tag text) = readScalar tag text := by
  rw [valueOf.eq_def]
  cases tag <;> simp only [Node.tag, scalarText, pure_bind, readScalar]

theorem valueOf_sequence (fuel : Nat) (items : List Node) :
    valueOf (fuel + 1) (.sequence .seq items) = .list <$> items.mapM (valueOf fuel) := by
  rw [valueOf.eq_def]
  rfl

theorem valueOf_mapping (fuel : Nat) (entries : List (Node × Node)) :
    valueOf (fuel + 1) (.mapping .map entries) =
      flatten (fuel + 1) entries >>= fun entries =>
        entries.mapM (valueOf.entryOf fuel) >>= fun values =>
          pure (.map (Bindings.ofPairs values)) := by
  rw [valueOf.eq_def]
  rfl

theorem entryOf_eq (fuel : Nat) (k n : Node) :
    valueOf.entryOf fuel (k, n) =
      valueOf fuel k >>= fun key => valueOf fuel n >>= fun value => pure (key, value) := by
  rw [valueOf.entryOf.eq_def]

mutual

/-- The value of a plain node is found if there is fuel for its depth. -/
theorem valueOf_plain : ∀ (n : Node) (fuel : Nat) (v : Value), n.depth ≤ fuel →
    n.plainValue? = some v → valueOf fuel n = .ok v
  | .scalar tag text, fuel, v, hfuel, h => by
    rw [Node.depth] at hfuel
    obtain ⟨fuel, rfl⟩ := Nat.exists_eq_add_of_le' hfuel
    rw [valueOf_scalar]
    exact toOption_eq_some.1 h
  | .sequence tag items, fuel, v, hfuel, h => by
    rw [Node.depth] at hfuel
    obtain ⟨fuel, rfl⟩ : ∃ n, fuel = n + 1 := ⟨fuel - 1, by omega⟩
    rw [Node.plainValue?] at h
    split at h
    · rename_i htag
      subst htag
      obtain ⟨vs, hvs, rfl⟩ := Option.map_eq_some_iff.1 h
      rw [valueOf_sequence, valuesOf_plain items fuel vs (by omega) hvs]
      rfl
    · cases h
  | .mapping tag entries, fuel, v, hfuel, h => by
    rw [Node.depth] at hfuel
    obtain ⟨fuel, rfl⟩ : ∃ n, fuel = n + 1 := ⟨fuel - 1, by omega⟩
    rw [Node.plainValue?] at h
    split at h
    · rename_i htag
      subst htag
      obtain ⟨es, hes, rfl⟩ := Option.map_eq_some_iff.1 h
      have hkeys := keys_of_plainEntries? hes
      rw [valueOf_mapping, flatten_eq fun e he => (hkeys e he).2]
      show entries.mapM (valueOf.entryOf fuel) >>= _ = _
      rw [entriesOf_plain entries fuel es (by omega) hes]
      rfl
    · cases h
termination_by structural n => n

theorem valuesOf_plain : ∀ (items : List Node) (fuel : Nat) (vs : List Value),
    depthItems items ≤ fuel → plainItems? items = some vs →
    items.mapM (valueOf fuel) = .ok vs
  | [], fuel, vs, _, h => by
    rw [plainItems?] at h
    cases h
    rfl
  | n :: rest, fuel, vs, hfuel, h => by
    rw [depthItems] at hfuel
    simp only [plainItems?, Option.bind_eq_bind, Option.bind_eq_some_iff] at h
    obtain ⟨v, hv, others, hothers, h⟩ := h
    cases h
    rw [List.mapM_cons, valueOf_plain n fuel v (by omega) hv]
    show List.mapM (valueOf fuel) rest >>= _ = _
    rw [valuesOf_plain rest fuel others (by omega) hothers]
    rfl
termination_by structural items => items

theorem entriesOf_plain : ∀ (entries : List (Node × Node)) (fuel : Nat) (es : List (Value × Value)),
    depthEntries entries ≤ fuel → plainEntries? entries = some es →
    entries.mapM (valueOf.entryOf fuel) = .ok es
  | [], fuel, es, _, h => by
    rw [plainEntries?] at h
    cases h
    rfl
  | (.scalar tag text, n) :: rest, fuel, es, hfuel, h => by
    rw [depthEntries, Node.depth] at hfuel
    simp only [plainEntries?, Option.bind_eq_bind, Option.bind_eq_some_iff] at h
    obtain ⟨k, hk, v, hv, others, hothers, h⟩ := h
    cases h
    obtain ⟨m, rfl⟩ : ∃ m, fuel = m + 1 := ⟨fuel - 1, by omega⟩
    rw [List.mapM_cons, entryOf_eq, valueOf_scalar, toOption_eq_some.1 hk,
      valueOf_plain n (m + 1) v (by omega) hv]
    show List.mapM (valueOf.entryOf (m + 1)) rest >>= _ = _
    rw [entriesOf_plain rest (m + 1) others (by omega) hothers]
    rfl
  | (.sequence tag items, n) :: rest, fuel, es, hfuel, h => by
    simp [plainEntries?] at h
  | (.mapping tag items, n) :: rest, fuel, es, hfuel, h => by
    simp [plainEntries?] at h
termination_by structural entries => entries

end

/-! ## Looking at nodes -/

/-- A node that is a collection, for later. -/
def Node.collection (n : Node) : List Node := if n.tag.isCollection then [n] else []

theorem look_plain {n : Node} {v : Value} (h : n.plainValue? = some v) (fuel : Nat) :
    look (fuel + 1) n = .ok n.collection := by
  unfold look Node.collection
  split
  · rfl
  · rename_i htag
    cases n with
    | scalar tag text =>
      have hread : readScalar tag text = .ok v := toOption_eq_some.1 h
      simp only [scalarText, pure_bind, Node.tag, hread]
      rfl
    | sequence tag items =>
      rw [Node.plainValue?] at h
      split at h
      · rename_i hseq
        exact absurd (by rw [Node.tag, hseq]; rfl) htag
      · cases h
    | mapping tag entries =>
      rw [Node.plainValue?] at h
      split at h
      · rename_i hmap
        exact absurd (by rw [Node.tag, hmap]; rfl) htag
      · cases h

/-- A node that is still to be looked at: a plain collection that is not too deep. -/
def Node.Pending (depth : Nat) (n : Node) : Prop :=
  n.tag.isCollection = true ∧ n.plainValue?.isSome = true ∧ n.depth ≤ depth

theorem mapM_ok {α β : Type} {f : α → Outcome β} {g : α → β} {l : List α}
    (h : ∀ a ∈ l, f a = .ok (g a)) : l.mapM f = .ok (l.map g) := by
  induction l with
  | nil => rfl
  | cons a l ih =>
    rw [List.mapM_cons, h a List.mem_cons_self, ih fun b hb => h b (List.mem_cons_of_mem a hb)]
    rfl

theorem exists_mapM_ok {α β : Type} {P : β → Prop} {f : α → Outcome β} {l : List α}
    (h : ∀ a ∈ l, ∃ b, f a = .ok b ∧ P b) : ∃ bs, l.mapM f = .ok bs ∧ ∀ b ∈ bs, P b := by
  induction l with
  | nil => exact ⟨[], rfl, fun _ hb => nomatch hb⟩
  | cons a l ih =>
    obtain ⟨b, hb, hP⟩ := h a List.mem_cons_self
    obtain ⟨bs, hbs, hall⟩ := ih fun c hc => h c (List.mem_cons_of_mem a hc)
    refine ⟨b :: bs, ?_, List.forall_mem_cons.2 ⟨hP, hall⟩⟩
    rw [List.mapM_cons, hb, hbs]
    rfl

theorem mem_plainItems? {items : List Node} {vs : List Value} (h : plainItems? items = some vs) :
    ∀ n ∈ items, n.plainValue?.isSome = true ∧ n.depth ≤ depthItems items := by
  induction items generalizing vs with
  | nil => exact fun _ hn => nomatch hn
  | cons n rest ih =>
    simp only [plainItems?, Option.bind_eq_bind, Option.bind_eq_some_iff] at h
    obtain ⟨v, hv, others, hothers, -⟩ := h
    rw [depthItems]
    refine List.forall_mem_cons.2 ⟨⟨by rw [hv]; rfl, by omega⟩, fun m hm => ?_⟩
    obtain ⟨hsome, hdepth⟩ := ih hothers m hm
    exact ⟨hsome, by omega⟩

theorem mem_plainEntries? {entries : List (Node × Node)} {es : List (Value × Value)}
    (h : plainEntries? entries = some es) :
    ∀ e ∈ entries, e.1.plainValue?.isSome = true ∧ e.2.plainValue?.isSome = true ∧
      e.2.depth ≤ depthEntries entries := by
  induction entries generalizing es with
  | nil => exact fun _ he => nomatch he
  | cons e rest ih =>
    obtain ⟨k, n⟩ := e
    cases k with
    | sequence tag items => simp [plainEntries?] at h
    | mapping tag inner => simp [plainEntries?] at h
    | scalar tag text =>
      simp only [plainEntries?, Option.bind_eq_bind, Option.bind_eq_some_iff] at h
      obtain ⟨key, hkey, v, hv, others, hothers, -⟩ := h
      rw [depthEntries]
      refine List.forall_mem_cons.2 ⟨⟨?_, by rw [hv]; rfl, ?_⟩, fun e he => ?_⟩
      · rw [Node.plainValue?, hkey]
        rfl
      · show n.depth ≤ _
        omega
      · obtain ⟨hfirst, hsecond, hdepth⟩ := ih hothers e he
        exact ⟨hfirst, hsecond, by omega⟩

theorem mem_collection {n m : Node} (h : m ∈ n.collection) : m = n ∧ n.tag.isCollection = true := by
  unfold Node.collection at h
  split at h
  · rename_i htag
    exact ⟨List.mem_singleton.1 h, htag⟩
  · cases h

/-- What is found inside a collection is again a plain collection, and less deep. -/
theorem lookInside_plain {n : Node} {depth : Nat} (h : n.Pending (depth + 1)) (fuel : Nat) :
    ∃ inner, lookInside (fuel + 1) n = .ok inner ∧ ∀ m ∈ inner, m.Pending depth := by
  obtain ⟨hn, hsome, hdepth⟩ := h
  obtain ⟨v, h⟩ := Option.isSome_iff_exists.1 hsome
  cases n with
  -- a scalar is not pending, since its tag is none of a collection
  | scalar tag text =>
    exact absurd hn (by simp [Node.tag, (tag_of_readScalar (toOption_eq_some.1 h)).1])
  | sequence tag items =>
    rw [Node.plainValue?] at h
    split at h
    · rename_i hseq
      subst hseq
      obtain ⟨vs, hvs, -⟩ := Option.map_eq_some_iff.1 h
      have hitems := mem_plainItems? hvs
      rw [Node.depth] at hdepth
      have hlook : items.mapM (look (fuel + 1)) = .ok (items.map Node.collection) := by
        refine mapM_ok fun m hm => ?_
        obtain ⟨w, hw⟩ := Option.isSome_iff_exists.1 (hitems m hm).1
        exact look_plain hw fuel
      refine ⟨(items.map Node.collection).flatten, ?_, fun m hm => ?_⟩
      · show List.flatten <$> items.mapM (look (fuel + 1)) = _
        rw [hlook]
        rfl
      · obtain ⟨found, hfound, hm⟩ := List.mem_flatten.1 hm
        obtain ⟨item, hitem, rfl⟩ := List.mem_map.1 hfound
        obtain ⟨rfl, htag⟩ := mem_collection hm
        obtain ⟨hsome, hle⟩ := hitems m hitem
        exact ⟨htag, hsome, by omega⟩
    · cases h
  | mapping tag entries =>
    rw [Node.plainValue?] at h
    split at h
    · rename_i hmap
      subst hmap
      obtain ⟨es, hes, -⟩ := Option.map_eq_some_iff.1 h
      have hentries := mem_plainEntries? hes
      have hkeys := keys_of_plainEntries? hes
      rw [Node.depth] at hdepth
      refine ⟨(entries.map fun e => e.2.collection).flatten, ?_, fun m hm => ?_⟩
      · show flatten (fuel + 1) entries >>= lookEntries (fuel + 1) = _
        -- with plain keys nothing is taken in, and flattening changes nothing
        rw [flatten_eq fun e he => (hkeys e he).2]
        show lookEntries (fuel + 1) entries = _
        unfold lookEntries
        rw [mapM_ok (g := fun e => e.2.collection)]
        · rfl
        · intro e he
          obtain ⟨hfirst, hsecond, -⟩ := hentries e he
          obtain ⟨k, hk⟩ := Option.isSome_iff_exists.1 hfirst
          obtain ⟨w, hw⟩ := Option.isSome_iff_exists.1 hsecond
          have hkey := (hkeys e he).1
          rw [look_plain hk fuel, look_plain hw fuel]
          simp [checkKey, hkey, Node.collection, bind, Except.bind, pure, Except.pure]
      · obtain ⟨found, hfound, hm⟩ := List.mem_flatten.1 hm
        obtain ⟨e, he, rfl⟩ := List.mem_map.1 hfound
        obtain ⟨rfl, htag⟩ := mem_collection hm
        obtain ⟨-, hsome, hle⟩ := hentries e he
        exact ⟨htag, hsome, by omega⟩
    · cases h

/-- Looking at plain nodes level by level finds nothing wrong. -/
theorem lookLevels_plain (fuel : Nat) (level : List Node) (h : ∀ n ∈ level, n.Pending fuel) :
    lookLevels (fuel + 1) level = .ok () := by
  induction fuel generalizing level with
  | zero =>
    cases level with
    | nil => rfl
    | cons n rest =>
      obtain ⟨-, -, hdepth⟩ := h n List.mem_cons_self
      cases n <;> simp [Node.depth] at hdepth
  | succ fuel ih =>
    cases level with
    | nil => rfl
    | cons n rest =>
      obtain ⟨next, hnext, hpending⟩ :=
        exists_mapM_ok fun m hm => lookInside_plain (h m hm) (fuel + 1)
      show List.mapM (lookInside (fuel + 2)) (n :: rest) >>= _ = _
      rw [hnext]
      refine ih next.flatten fun m hm => ?_
      obtain ⟨inner, hinner, hm⟩ := List.mem_flatten.1 hm
      exact hpending inner hinner m hm

/-- A text that is read as a plain node has the value of the node. -/
theorem read_of_plainValue? {text : String} {root : Node} {v : Value}
    (hroot : Node.read text = .ok (some root)) (h : root.plainValue? = some v) :
    read text = .ok v := by
  have hlevels : lookLevels (root.depth + 2) root.collection = .ok () := by
    refine lookLevels_plain (root.depth + 1) _ fun n hn => ?_
    obtain ⟨rfl, htag⟩ := mem_collection hn
    exact ⟨htag, by rw [h]; rfl, by omega⟩
  rw [read, hroot]
  show look (root.depth + 2) root >>= _ = _
  rw [look_plain h]
  show lookLevels (root.depth + 2) root.collection >>= _ = _
  rw [hlevels]
  exact valueOf_plain root (root.depth + 2) v (by omega) h

end TreeScript.Yaml
