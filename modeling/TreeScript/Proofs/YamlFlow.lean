import TreeScript.Yaml.Node

/-!
# Nodes of bracketed collections

The tokens of a scalar, or of a list or a map in brackets, are put together to one node, wherever
they stand and whatever follows them (`Parses`). For lists and maps alike (`PartsParser`) this is
built up from the last part to the first, in the way in which they are written: a part with the
closing bracket, and a part with a comma before more of them.
-/

namespace TreeScript.Yaml

open Parse

/-- Whether a token is a scalar or an opening bracket. -/
def Token.opensNode : Token → Bool
  | .scalar .. | .flowSequenceStart | .flowMappingStart => true
  | _ => false

/-- Whether tokens start with that of a scalar or of an opening bracket. -/
def startsNode : List Token → Bool
  | token :: _ => token.opensNode
  | [] => false

/-- Tokens are put together to a node if there is fuel for their number. -/
def Parses (tokens : List Token) (n : Node) : Prop :=
  startsNode tokens = true ∧ ∀ (fuel : Nat) (block indentless : Bool) (p : Parser)
    (rest : List Token), 4 * tokens.length ≤ fuel → p.tokens = tokens ++ rest →
      (node fuel block indentless).run p = .ok (n, { p with tokens := rest })

/-- A scalar is a node. -/
theorem Parses.scalar (text : String) (plain : Bool) :
    Parses [.scalar text plain] (.scalar (scalarTag ⟨false, none⟩ text plain) text) := by
  refine ⟨rfl, fun fuel block indentless p rest hfuel hp => ?_⟩
  obtain ⟨fuel, rfl⟩ : ∃ n, fuel = n + 1 := ⟨fuel - 1, by simp at hfuel; omega⟩
  obtain ⟨tokens, anchors, handles⟩ := p
  cases hp
  rw [node]
  rfl

/-- A step that is followed by another one, and the two results put together. -/
theorem run_bind_map {α β γ : Type} {x : Parse α} {y : Parse β} {p q : Parser} {a : α}
    (h : x.run p = .ok (a, q)) (f : α → β → γ) :
    (x >>= fun a => y >>= fun b => pure (f a b)).run p =
      (y.run q).map fun r => (f a r.1, r.2) := by
  rw [StateT.run_bind, h]
  show (y >>= fun b => pure (f a b)).run q = _
  rw [StateT.run_bind]
  cases y.run q <;> rfl

/-! ## Collections -/

/-- A comma, but none before the first part of a collection. -/
def commaUnless (first : Bool) : List Token := if first then [] else [.flowEntry]

/-- How the parts of lists or of maps are put together, up to the token of the closing bracket. -/
structure PartsParser (α : Type) where
  parse : Nat → Bool → Parse (List α)
  closing : Token
  Part : List Token → α → Prop
  parse_closing : ∀ (fuel : Nat) (first : Bool) (p : Parser) (rest : List Token),
    (parse (fuel + 1) first).run { p with tokens := closing :: rest } =
      .ok ([], { p with tokens := rest })
  parse_comma : ∀ (fuel : Nat) (p : Parser) (rest : List Token),
    (parse (fuel + 1) false).run { p with tokens := .flowEntry :: closing :: rest } =
      .ok ([], { p with tokens := rest })
  parse_part : ∀ {tokens : List Token} {a : α}, Part tokens a → ∀ {fuel : Nat},
    4 * tokens.length ≤ fuel → ∀ (first : Bool) (p : Parser) (rest : List Token),
      (parse (fuel + 1) first).run { p with tokens := commaUnless first ++ (tokens ++ rest) } =
        ((parse fuel false).run { p with tokens := rest }).map fun r => (a :: r.1, r.2)

namespace PartsParser

variable {α : Type} {K : PartsParser α} {tokens others : List Token} {a : α} {as : List α}

/-- Tokens up to the closing one are put together to parts: after the opening bracket, and after a
comma. -/
def ParsesAll (K : PartsParser α) (tokens : List Token) (as : List α) : Prop :=
  ∀ (fuel : Nat) (first : Bool) (p : Parser) (rest : List Token), 4 * tokens.length ≤ fuel →
    (K.parse fuel first).run { p with tokens := commaUnless first ++ (tokens ++ rest) } =
      .ok (as, { p with tokens := rest })

namespace ParsesAll

theorem nil : K.ParsesAll [K.closing] [] := by
  intro fuel first p rest hfuel
  rw [List.length_singleton] at hfuel
  obtain ⟨fuel, rfl⟩ : ∃ m, fuel = m + 1 := ⟨fuel - 1, by omega⟩
  cases first with
  | true => exact K.parse_closing fuel true p rest
  | false => exact K.parse_comma fuel p rest

theorem last (h : K.Part tokens a) : K.ParsesAll (tokens ++ [K.closing]) [a] := by
  intro fuel first p rest hfuel
  rw [List.length_append, List.length_singleton] at hfuel
  obtain ⟨fuel, rfl⟩ : ∃ m, fuel = m + 2 := ⟨fuel - 2, by omega⟩
  rw [List.append_assoc, List.singleton_append, K.parse_part h (by omega), K.parse_closing]
  rfl

theorem more (h : K.Part tokens a) (hothers : K.ParsesAll others as) :
    K.ParsesAll (tokens ++ .flowEntry :: others) (a :: as) := by
  intro fuel first p rest hfuel
  rw [List.length_append, List.length_cons] at hfuel
  obtain ⟨fuel, rfl⟩ : ∃ m, fuel = m + 1 := ⟨fuel - 1, by omega⟩
  have hrest : (K.parse fuel false).run { p with tokens := .flowEntry :: (others ++ rest) } =
      .ok (as, { p with tokens := rest }) := hothers fuel false p rest (by omega)
  rw [List.append_assoc, List.cons_append, K.parse_part h (by omega), hrest]
  rfl

/-- Parts in brackets are a node, if the opening bracket makes the parser put them together. -/
theorem parses (h : K.ParsesAll tokens as) {opening : Token} (hopening : opening.opensNode = true)
    {make : List α → Node}
    (hnode : ∀ (fuel : Nat) (block indentless : Bool) (p : Parser) (rest : List Token),
      (node (fuel + 1) block indentless).run { p with tokens := opening :: rest } =
        (K.parse fuel true >>= fun as => pure (make as)).run { p with tokens := rest }) :
    Parses (opening :: tokens) (make as) := by
  refine ⟨hopening, fun fuel block indentless p rest hfuel hp => ?_⟩
  rw [List.length_cons] at hfuel
  obtain ⟨fuel, rfl⟩ : ∃ m, fuel = m + 1 := ⟨fuel - 1, by omega⟩
  obtain ⟨current, anchors, handles⟩ := p
  obtain rfl : current = opening :: (tokens ++ rest) := hp
  have hparts := h fuel true ⟨opening :: (tokens ++ rest), anchors, handles⟩ rest (by omega)
  rw [hnode fuel block indentless ⟨opening :: (tokens ++ rest), anchors, handles⟩ (tokens ++ rest),
    StateT.run_bind]
  exact congrArg (· >>= _) hparts

end ParsesAll

end PartsParser

/-- The items of a list. -/
def listItems : PartsParser Node where
  parse := flowItems
  closing := .flowSequenceEnd
  Part := Parses
  parse_closing fuel first p rest := by
    rw [flowItems]
    rfl
  parse_comma fuel p rest := by
    rw [flowItems]
    rfl
  parse_part {tokens n} h fuel hfuel first p rest := by
    obtain ⟨hstarts, hnode⟩ := h
    have hitem := hnode fuel false false { p with tokens := tokens ++ rest } rest hfuel rfl
    rw [← run_bind_map hitem, flowItems]
    cases tokens with
    | nil => cases hstarts
    | cons token tokens =>
      cases token with
      | scalar text plain => cases first <;> rfl
      | flowSequenceStart => cases first <;> rfl
      | flowMappingStart => cases first <;> rfl
      | _ => cases hstarts

/-- Items in brackets are a node. -/
theorem Parses.list {tokens : List Token} {ns : List Node} (h : listItems.ParsesAll tokens ns) :
    Parses (.flowSequenceStart :: tokens) (.sequence .seq ns) :=
  h.parses rfl fun fuel block indentless p rest => by
    rw [node]
    rfl

/-! ## Maps -/

/-- The tokens of an entry with a quoted key. -/
inductive EntryTokens : List Token → Node × Node → Prop where
  | intro {tokens : List Token} {n : Node} (key : String) (h : Parses tokens n) :
    EntryTokens (.key :: .scalar key false :: .value :: tokens) (.scalar .str key, n)

theorem nodeUnless_run {tokens : List Token} {n : Node} (h : Parses tokens n) {fuel : Nat}
    (hfuel : 4 * tokens.length ≤ fuel) (p : Parser) (rest : List Token) :
    (nodeUnless (fuel + 1) [.flowEntry, .flowMappingEnd] false false).run
        { p with tokens := tokens ++ rest } = .ok (n, { p with tokens := rest }) := by
  obtain ⟨hstarts, hnode⟩ := h
  have hitem := hnode fuel false false { p with tokens := tokens ++ rest } rest hfuel rfl
  rw [← hitem, nodeUnless]
  cases tokens with
  | nil => cases hstarts
  | cons token tokens =>
    cases token with
    | scalar text plain => rfl
    | flowSequenceStart => rfl
    | flowMappingStart => rfl
    | _ => cases hstarts

theorem flowEntries_entry {tokens : List Token} {n : Node} (h : Parses tokens n) {fuel : Nat}
    (hfuel : 4 * tokens.length ≤ fuel) (key : String) (first : Bool) (p : Parser)
    (rest : List Token) :
    (flowEntries (fuel + 3) first).run
        { p with tokens := commaUnless first ++
          (.key :: .scalar key false :: .value :: tokens ++ rest) } =
      ((flowEntries (fuel + 2) false).run { p with tokens := rest }).map fun r =>
        ((.scalar .str key, n) :: r.1, r.2) := by
  have hvalue : (flowValue (fuel + 2) .flowMappingEnd).run
      { p with tokens := .value :: (tokens ++ rest) } = .ok (n, { p with tokens := rest }) := by
    rw [← nodeUnless_run h hfuel p rest, flowValue]
    rfl
  have hkey : (nodeUnless (fuel + 2) [.value, .flowEntry, .flowMappingEnd] false false).run
      { p with tokens := .scalar key false :: .value :: (tokens ++ rest) } =
      .ok (.scalar .str key, { p with tokens := .value :: (tokens ++ rest) }) := by
    have hnode : (node (fuel + 1) false false).run
        { p with tokens := .scalar key false :: .value :: (tokens ++ rest) } =
        .ok (.scalar .str key, { p with tokens := .value :: (tokens ++ rest) }) := by
      rw [node]
      rfl
    rw [← hnode, nodeUnless]
    rfl
  have hstep : (flowEntries (fuel + 3) first).run
      { p with tokens := commaUnless first ++
        (.key :: .scalar key false :: .value :: tokens ++ rest) } =
      (nodeUnless (fuel + 2) [.value, .flowEntry, .flowMappingEnd] false false >>= fun k =>
        flowValue (fuel + 2) .flowMappingEnd >>= fun v =>
          flowEntries (fuel + 2) false >>= fun es => pure ((k, v) :: es)).run
        { p with tokens := .scalar key false :: .value :: (tokens ++ rest) } := by
    rw [flowEntries]
    cases first <;> rfl
  rw [hstep, StateT.run_bind, hkey]
  exact run_bind_map hvalue fun v es => (Node.scalar .str key, v) :: es

/-- The entries of a map. -/
def mapEntries : PartsParser (Node × Node) where
  parse := flowEntries
  closing := .flowMappingEnd
  Part := EntryTokens
  parse_closing fuel first p rest := by
    rw [flowEntries]
    rfl
  parse_comma fuel p rest := by
    rw [flowEntries]
    rfl
  parse_part {tokens e} h fuel hfuel first p rest := by
    obtain ⟨key, h⟩ := h
    simp only [List.length_cons] at hfuel
    obtain ⟨fuel, rfl⟩ : ∃ m, fuel = m + 2 := ⟨fuel - 2, by omega⟩
    exact flowEntries_entry h (by omega) key first p rest

/-- Entries in braces are a node. -/
theorem Parses.map {tokens : List Token} {es : List (Node × Node)}
    (h : mapEntries.ParsesAll tokens es) :
    Parses (.flowMappingStart :: tokens) (.mapping .map es) :=
  h.parses rfl fun fuel block indentless p rest => by
    rw [node]
    rfl

/-! ## Documents -/

/-- Accepts that there is no other document after a root. -/
def expectEnd (fuel : Nat) (root : Option Node) : Parse (Option Node) := do
  if (← peek) == .documentEnd then Parse.drop
  if ← documentStarts fuel then fail
  pure root

/-- A document without marks is a node. -/
theorem document_run {tokens : List Token} (h : startsNode tokens = true) (fuel : Nat) :
    (document fuel).run { tokens := tokens } =
      ((some <$> node fuel true false) >>= expectEnd fuel).run
        { tokens := tokens, handles := defaultHandles } := by
  cases tokens with
  | nil => cases h
  | cons token tokens =>
    cases token with
    | scalar text plain => rfl
    | flowSequenceStart => rfl
    | flowMappingStart => rfl
    | _ => cases h

/-- A text of which the tokens are those of one node is read as this node. -/
theorem Parses.read {text : String} {tokens : List Token} {n : Node} (h : Parses tokens n)
    (hscan : Token.scan text = tokens ++ [.streamEnd]) : Node.read text = .ok (some n) := by
  obtain ⟨hstarts, hnode⟩ := h
  have hstarts' : startsNode (tokens ++ [.streamEnd]) = true := by
    cases tokens with
    | nil => cases hstarts
    | cons token tokens => exact hstarts
  obtain ⟨fuel, hfuel⟩ : ∃ fuel, 4 * (tokens ++ [Token.streamEnd]).length + 8 = fuel + 1 := ⟨_, rfl⟩
  have hroot := hnode (fuel + 1) true false
    { tokens := tokens ++ [.streamEnd], handles := defaultHandles } [.streamEnd]
    (by rw [List.length_append] at hfuel; omega) rfl
  rw [Node.read, hscan, hfuel, document_run hstarts', StateT.run_bind, StateT.run_map, hroot]
  rfl

end TreeScript.Yaml
