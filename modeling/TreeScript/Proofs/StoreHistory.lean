import Mathlib.Data.List.Induction
import Mathlib.Data.List.Nodup
import TreeScript.Effect.Dispatch
import TreeScript.Platform.Bundled
import TreeScript.Proofs.Basic
import TreeScript.Proofs.RunLog

/-!
# The history of the texts that are kept

Evaluations that share a host keep texts by name, ask for them and clear them, each at its own pace.
An `Op` is such an effect whose arguments are texts, and a history is a list of them in the order in
which they were started. Here the answer to an effect is told from the history before it, without
looking at the store: `Live` says which text a name has, `LiveSince` when it last got one after
having none, and `Answers` what each effect answers.

`Tells` ties what is in the store, with its order, to a history. Each of these effects keeps the tie
(`Tells.set`, `Tells.unset`), and all others leave the store alone (`start_store`, `resume_store`).
The main statement `answers_of_history` follows by induction on what the evaluations have done.
-/

namespace TreeScript.Store

/-! ## Histories -/

/-- What an effect does with the texts. -/
inductive Op where
  /-- A text is kept under a name. -/
  | set (name text : String)
  /-- The text under a name is asked for. -/
  | get (name : String)
  /-- The names are asked for. -/
  | list
  /-- A name is cleared, or all of them. -/
  | clear (name? : Option String)

/-- An effect gives a name a text. -/
def Op.Sets (op : Op) (name : String) : Prop := ∃ text, op = .set name text

/-- An effect clears a name: it names it, or it names none, for which the empty name does too. -/
def Op.Clears (op : Op) (name : String) : Prop :=
  op = .clear (some name) ∨ op = .clear none ∨ op = .clear (some "")

/-- A name has a text: it was given the text, and has neither been given another one nor been
cleared after that. -/
def Live (history : List Op) (name text : String) : Prop :=
  ∃ before after, history = before ++ .set name text :: after ∧
    ∀ op ∈ after, ¬ op.Sets name ∧ ¬ op.Clears name

/-- The moment when a name got a text after having none, since when it has not been cleared. -/
def LiveSince (history : List Op) (name : String) (moment : Nat) : Prop :=
  ∃ before text after, history = before ++ .set name text :: after ∧ before.length = moment ∧
    (¬ ∃ old, Live before name old) ∧ ∀ op ∈ after, ¬ op.Clears name

/-- One name has had a text for longer than another. -/
def Earlier (history : List Op) (first second : String) : Prop :=
  ∃ moment later, LiveSince history first moment ∧ LiveSince history second later ∧ moment < later

/-- The names that have a text, with their texts, in the order in which they got one. -/
structure Tells (history : List Op) (entries : List (String × String)) : Prop where
  live : ∀ name text, (name, text) ∈ entries ↔ Live history name text
  nodup : (entries.map Prod.fst).Nodup
  ordered : (entries.map Prod.fst).Pairwise (Earlier history)

/-- What an effect answers after a history. -/
def Answers (history : List Op) : Op → Value → Prop
  | .set name text, v => v = .ofFields [("stored", .str name), ("length", .int text.length)]
  | .get name, v =>
    (∃ text, Live history name text ∧ v = .str text) ∨
      (¬ ∃ text, Live history name text) ∧
        v = .ofFields [("error", .str s!"Context \"{name}\" not found")]
  | .list, v => ∃ entries, Tells history entries ∧
      v = .list (entries.map fun e => .ofFields [("name", .str e.1), ("length", .int e.2.length)])
  | .clear name?, v => ∃ names : List String, names.Nodup ∧
      (∀ name, name ∈ names ↔ (∃ text, Live history name text) ∧
        ¬ ∃ text, Live (history ++ [.clear name?]) name text) ∧
      v = .ofFields [("cleared", .int names.length)]

/-! ## One effect more -/

/-- What one effect more does to the text of a name. -/
theorem live_concat {history : List Op} {op : Op} {name text : String} :
    Live (history ++ [op]) name text ↔
      op = .set name text ∨ Live history name text ∧ ¬ op.Sets name ∧ ¬ op.Clears name := by
  constructor
  · rintro ⟨before, after, hhistory, hafter⟩
    rcases List.eq_nil_or_concat after with rfl | ⟨after, last, rfl⟩
    · have hlast := (List.append_inj' hhistory rfl).2
      exact .inl (List.cons.inj hlast).1
    · rw [List.concat_eq_append, ← List.cons_append, ← List.append_assoc] at hhistory
      obtain ⟨rfl, hlast⟩ := List.append_inj' hhistory rfl
      obtain rfl := (List.cons.inj hlast).1
      rw [List.concat_eq_append, List.forall_mem_append, List.forall_mem_singleton] at hafter
      exact .inr ⟨⟨before, after, rfl, hafter.1⟩, hafter.2⟩
  · rintro (rfl | ⟨⟨before, after, rfl, hafter⟩, hop⟩)
    · exact ⟨history, [], rfl, fun _ h => nomatch h⟩
    · refine ⟨before, after ++ [op], by simp, ?_⟩
      exact List.forall_mem_append.2 ⟨hafter, List.forall_mem_singleton.2 hop⟩

/-- The moment stays, unless the name is cleared. -/
theorem LiveSince.concat {history : List Op} {name : String} {moment : Nat} {op : Op}
    (h : LiveSince history name moment) (hop : ¬ op.Clears name) :
    LiveSince (history ++ [op]) name moment := by
  obtain ⟨before, text, after, rfl, hmoment, hnone, hafter⟩ := h
  refine ⟨before, text, after ++ [op], by simp, hmoment, hnone, ?_⟩
  exact List.forall_mem_append.2 ⟨hafter, List.forall_mem_singleton.2 hop⟩

theorem Earlier.concat {history : List Op} {first second : String} {op : Op}
    (h : Earlier history first second) (hfirst : ¬ op.Clears first) (hsecond : ¬ op.Clears second) :
    Earlier (history ++ [op]) first second := by
  obtain ⟨moment, later, hmoment, hlater, hlt⟩ := h
  exact ⟨moment, later, hmoment.concat hfirst, hlater.concat hsecond, hlt⟩

/-- A moment is one of the history. -/
theorem LiveSince.lt_length {history : List Op} {name : String} {moment : Nat}
    (h : LiveSince history name moment) : moment < history.length := by
  obtain ⟨before, text, after, rfl, rfl, -⟩ := h
  simp

/-- A name that had none gets a text now. -/
theorem liveSince_concat {history : List Op} {name : String}
    (h : ¬ ∃ old, Live history name old) (text : String) :
    LiveSince (history ++ [.set name text]) name history.length :=
  ⟨history, text, [], rfl, rfl, h, fun _ hop => nomatch hop⟩

/-- A name that has a text got it, or an earlier one, at some moment. -/
theorem Live.since {history : List Op} {name text : String} (h : Live history name text) :
    ∃ moment, LiveSince history name moment := by
  induction history using List.reverseRecOn generalizing text with
  | nil =>
    obtain ⟨before, after, hhistory, -⟩ := h
    simp at hhistory
  | append_singleton history op ih =>
    rcases live_concat.1 h with rfl | ⟨hlive, -, hclears⟩
    · by_cases hold : ∃ old, Live history name old
      · obtain ⟨old, hold⟩ := hold
        obtain ⟨moment, hmoment⟩ := ih hold
        exact ⟨moment, hmoment.concat (by simp [Op.Clears])⟩
      · exact ⟨history.length, liveSince_concat hold text⟩
    · obtain ⟨moment, hmoment⟩ := ih hlive
      exact ⟨moment, hmoment.concat hclears⟩

/-! ## What is in the store -/

/-- A store that holds texts. -/
def texts (entries : List (String × String)) : Bindings :=
  entries.map fun e => (.str e.1, .str e.2)

/-- The entries after a text has been given to a name, in its place or at the end. -/
def keep : List (String × String) → String → String → List (String × String)
  | [], name, text => [(name, text)]
  | (other, old) :: rest, name, text =>
    if name = other then (other, text) :: rest else (other, old) :: keep rest name text

theorem put_texts (entries : List (String × String)) (name text : String) :
    (texts entries).put (.str name) (.str text) = texts (keep entries name text) := by
  induction entries with
  | nil => rfl
  | cons e rest ih =>
    obtain ⟨other, old⟩ := e
    show (if Value.alike (.str name) (.str other) then _
      else _ :: Bindings.put (texts rest) _ _) = _
    rw [ih, Value.alike_str, keep]
    by_cases hname : name = other
    · simp [hname, texts]
    · simp [hname, texts]

/-- A name is in the store with a text, or it is not there. -/
theorem lookup?_texts (entries : List (String × String)) (name : String) :
    (name ∉ entries.map Prod.fst ∧ (texts entries).lookup? (.str name) = none) ∨
      ∃ text, (name, text) ∈ entries ∧ (texts entries).lookup? (.str name) = some (.str text) := by
  have hlookup : (texts entries).lookup? (.str name) =
      (entries.find? fun e => name == e.1).map fun e => .str e.2 := by
    unfold Bindings.lookup? texts
    simp [List.find?_map, Function.comp_def]
  rw [hlookup]
  cases hfind : entries.find? fun e => name == e.1 with
  | none =>
    refine .inl ⟨fun hmem => ?_, rfl⟩
    obtain ⟨e, he, rfl⟩ := List.mem_map.1 hmem
    simpa using List.find?_eq_none.1 hfind e he
  | some e =>
    obtain ⟨other, text⟩ := e
    obtain rfl : name = other := by simpa using List.find?_some hfind
    exact .inr ⟨text, List.mem_of_find?_eq_some hfind, rfl⟩

theorem remove_texts (entries : List (String × String)) (name : String) :
    (texts entries).remove (.str name) = texts (entries.filter fun e => !(e.1 == name)) := by
  unfold Bindings.remove texts
  simp [List.filter_map, Function.comp_def, BEq.comm]

theorem names_keep (entries : List (String × String)) (name text : String) :
    (keep entries name text).map Prod.fst =
      if name ∈ entries.map Prod.fst then entries.map Prod.fst
      else entries.map Prod.fst ++ [name] := by
  induction entries with
  | nil => rfl
  | cons e rest ih =>
    obtain ⟨other, old⟩ := e
    rw [keep]
    by_cases hname : name = other
    · simp [hname]
    · rw [if_neg hname, List.map_cons, ih]
      by_cases hrest : name ∈ rest.map Prod.fst
      · simp [hname, hrest]
      · simp [hname, hrest]

theorem mem_keep {entries : List (String × String)} (h : (entries.map Prod.fst).Nodup)
    {name text : String} {e : String × String} :
    e ∈ keep entries name text ↔ e = (name, text) ∨ e.1 ≠ name ∧ e ∈ entries := by
  induction entries with
  | nil => simp [keep]
  | cons first rest ih =>
    obtain ⟨other, old⟩ := first
    rw [List.map_cons, List.nodup_cons] at h
    rw [keep]
    by_cases hname : name = other
    · subst hname
      have hrest : e ∈ rest → e.1 ≠ name := by
        rintro he rfl
        exact h.1 (List.mem_map.2 ⟨e, he, rfl⟩)
      rw [if_pos rfl, List.mem_cons, List.mem_cons]
      constructor
      · rintro (rfl | he)
        · exact .inl rfl
        · exact .inr ⟨hrest he, .inr he⟩
      · rintro (rfl | ⟨hne, rfl | he⟩)
        · exact .inl rfl
        · exact absurd rfl hne
        · exact .inr he
    · rw [if_neg hname, List.mem_cons, ih h.2, List.mem_cons]
      constructor
      · rintro (rfl | rfl | ⟨hne, he⟩)
        · exact .inr ⟨Ne.symm hname, .inl rfl⟩
        · exact .inl rfl
        · exact .inr ⟨hne, .inr he⟩
      · rintro (rfl | ⟨hne, rfl | he⟩)
        · exact .inr (.inl rfl)
        · exact .inl rfl
        · exact .inr (.inr ⟨hne, he⟩)

namespace Tells

variable {history : List Op} {entries : List (String × String)} {op : Op}

theorem nil : Tells [] [] where
  live := by
    intro name text
    constructor
    · exact fun h => nomatch h
    · rintro ⟨before, after, hhistory, -⟩
      simp at hhistory
  nodup := List.nodup_nil
  ordered := .nil

theorem mem_names (h : Tells history entries) {name : String} :
    name ∈ entries.map Prod.fst ↔ ∃ text, Live history name text := by
  constructor
  · intro hname
    obtain ⟨⟨_, text⟩, he, rfl⟩ := List.mem_map.1 hname
    exact ⟨text, (h.live _ text).1 he⟩
  · rintro ⟨text, hlive⟩
    exact List.mem_map_of_mem ((h.live name text).2 hlive)

/-- An effect that gives no text leaves the names that it does not clear. -/
theorem unset (h : Tells history entries) {cleared : String → Bool}
    (hsets : ∀ name, ¬ op.Sets name) (hclears : ∀ name, op.Clears name ↔ cleared name = true) :
    Tells (history ++ [op]) (entries.filter fun e => !cleared e.1) := by
  have hnames : (entries.filter fun e => !cleared e.1).map Prod.fst =
      (entries.map Prod.fst).filter fun name => !cleared name := by
    rw [List.filter_map]
    rfl
  refine ⟨fun name text => ?_, ?_, ?_⟩
  · have hset : op ≠ .set name text := fun heq => hsets name ⟨text, heq⟩
    simp [live_concat, h.live, hset, hsets, hclears]
  · rw [hnames]
    exact h.nodup.filter _
  · rw [hnames]
    refine (h.ordered.filter _).imp_of_mem ?_
    intro first second hfirst hsecond hearlier
    have hkept : ∀ name ∈ (entries.map Prod.fst).filter fun name => !cleared name,
        ¬ op.Clears name := by
      intro name hname
      simpa [hclears] using (List.mem_filter.1 hname).2
    exact hearlier.concat (hkept first hfirst) (hkept second hsecond)

/-- The names that such an effect clears are those that have a text before it and none after it. -/
theorem cleared (h : Tells history entries) {cleared : String → Bool}
    (hsets : ∀ name, ¬ op.Sets name) (hclears : ∀ name, op.Clears name ↔ cleared name = true) :
    ((entries.map Prod.fst).filter cleared).Nodup ∧
    ∀ name, name ∈ (entries.map Prod.fst).filter cleared ↔
      (∃ text, Live history name text) ∧ ¬ ∃ text, Live (history ++ [op]) name text := by
  refine ⟨h.nodup.filter _, fun name => ?_⟩
  rw [List.mem_filter, h.mem_names]
  refine and_congr_right fun ⟨text, hlive⟩ => ⟨?_, ?_⟩
  · rintro hcleared ⟨text', hlive'⟩
    rcases live_concat.1 hlive' with heq | ⟨-, -, hkept⟩
    · exact hsets name ⟨text', heq⟩
    · exact hkept ((hclears name).2 hcleared)
  · intro hnone
    by_contra hkept
    rw [← hclears] at hkept
    exact hnone ⟨text, live_concat.2 (.inr ⟨hlive, hsets name, hkept⟩)⟩

/-- A name keeps its place if it has a text, and is the last of all if it has not. -/
theorem set (h : Tells history entries) (name text : String) :
    Tells (history ++ [.set name text]) (keep entries name text) := by
  have hclears : ∀ other, ¬ (Op.set name text).Clears other := by simp [Op.Clears]
  refine ⟨fun other text' => ?_, ?_, ?_⟩
  · rw [mem_keep h.nodup, live_concat, ← h.live]
    simp [Op.Sets, Op.Clears, eq_comm, and_comm]
  · rw [names_keep]
    split
    · exact h.nodup
    · rename_i hnew
      rw [← List.concat_eq_append]
      exact h.nodup.concat hnew
  · have hold : (entries.map Prod.fst).Pairwise (Earlier (history ++ [.set name text])) :=
      h.ordered.imp fun hearlier => hearlier.concat (hclears _) (hclears _)
    rw [names_keep]
    split
    · exact hold
    · rename_i hnew
      rw [h.mem_names] at hnew
      refine List.pairwise_append.2 ⟨hold, List.pairwise_singleton _ _, ?_⟩
      intro first hfirst second hsecond
      obtain rfl := List.mem_singleton.1 hsecond
      obtain ⟨text', hlive⟩ := h.mem_names.1 hfirst
      obtain ⟨moment, hmoment⟩ := hlive.since
      exact ⟨moment, history.length, hmoment.concat (hclears first), liveSince_concat hnew text,
        hmoment.lt_length⟩

end Tells

/-! ## What the effects do -/

/-- What an effect does with the texts, if it is one that does something with them and its arguments
are texts. -/
def Op.of? (effect : Effect.Builtin) (args : Bindings) : Option Op :=
  match effect, args.getD "name" .null, args.getD "text" .null with
  | .storeSet, .str name, .str text => some (.set name text)
  | .storeGet, .str name, _ => some (.get name)
  | .storeList, _, _ => some .list
  | .storeClear, .str name, _ => some (.clear (some name))
  | .storeClear, .null, _ => some (.clear none)
  | _, _, _ => none

section

variable {history : List Op} {entries : List (String × String)} {args : Bindings}
  {name text : String}

theorem set_texts (entries : List (String × String)) (hname : args.getD "name" .null = .str name)
    (htext : args.getD "text" .null = .str text) :
    Store.set args (texts entries) =
      .ok (.ofFields [("stored", .str name), ("length", .int text.length)],
        texts (keep entries name text)) := by
  unfold Store.set
  rw [hname, htext, ← put_texts]
  rfl

theorem get_texts (h : Tells history entries) (hname : args.getD "name" .null = .str name) :
    ∃ v, Store.get args (texts entries) = .ok v ∧ Answers history (.get name) v := by
  unfold Store.get
  rw [hname]
  dsimp only
  rcases lookup?_texts entries name with ⟨hnone, hlookup⟩ | ⟨text, htext, hlookup⟩
  · rw [h.mem_names] at hnone
    rw [hlookup]
    exact ⟨_, rfl, .inr ⟨hnone, rfl⟩⟩
  · rw [hlookup]
    exact ⟨_, rfl, .inl ⟨text, (h.live name text).1 htext, rfl⟩⟩

theorem list_texts (entries : List (String × String)) :
    Store.list (texts entries) =
      .ok (.list (entries.map fun e =>
        .ofFields [("name", .str e.1), ("length", .int e.2.length)])) := by
  have hlength : ∀ text : String, (Value.str text).length = .ok text.length := by
    intro text
    simp [Value.length, Value.elements?, String.length_toList]
  have hentries : (texts entries).mapM (fun e => do
      let length ← e.2.length
      pure (Value.ofFields [("name", e.1), ("length", .int length)]) : _ → Result Value) =
      .ok (entries.map fun e => .ofFields [("name", .str e.1), ("length", .int e.2.length)]) := by
    induction entries with
    | nil => rfl
    | cons e rest ih =>
      show (_ :: texts rest).mapM _ = _
      rw [List.mapM_cons, ih]
      dsimp only
      rw [hlength]
      rfl
  unfold Store.list
  rw [hentries]
  rfl

/-- Clears a name that is not empty. -/
theorem clear_one (h : Tells history entries) (hname : args.getD "name" .null = .str name)
    (hempty : name ≠ "") :
    ∃ v entries', Store.clear args (texts entries) = .ok (v, texts entries') ∧
      Tells (history ++ [.clear (some name)]) entries' ∧
      Answers history (.clear (some name)) v := by
  have hclears : ∀ other, (Op.clear (some name)).Clears other ↔ (other == name) = true := by
    intro other
    rw [beq_iff_eq, eq_comm]
    simp [Op.Clears, hempty]
  have hsets : ∀ other, ¬ (Op.clear (some name)).Sets other := by simp [Op.Sets]
  obtain ⟨hnodup, hmem⟩ := h.cleared hsets hclears
  refine ⟨cleared ((entries.map Prod.fst).filter fun other => other == name).length, _, ?_,
    h.unset hsets hclears, _, hnodup, hmem, rfl⟩
  have hcount : ((entries.map Prod.fst).filter fun other => other == name).length =
      if name ∈ entries.map Prod.fst then 1 else 0 := by
    rw [← List.countP_eq_length_filter]
    exact h.nodup.count
  have htruth : (Value.str name).truth = true := by simpa [Value.truth] using hempty
  unfold Store.clear
  rw [hname]
  dsimp only
  rw [if_pos htruth, remove_texts, hcount]
  rcases lookup?_texts entries name with ⟨hnone, hlookup⟩ | ⟨text, htext, hlookup⟩
  · rw [hlookup, if_neg hnone]
    split <;> rfl
  · rw [hlookup, if_pos (List.mem_map_of_mem htext)]
    split <;> rfl

/-- Clears everything, if no name is given or the empty one. -/
theorem clear_all (h : Tells history entries) {name? : Option String}
    (hname : (args.getD "name" .null).truth = false) (hnone : name? = none ∨ name? = some "") :
    ∃ v entries', Store.clear args (texts entries) = .ok (v, texts entries') ∧
      Tells (history ++ [.clear name?]) entries' ∧ Answers history (.clear name?) v := by
  have hclears : ∀ other, (Op.clear name?).Clears other ↔ true = true := by
    intro other
    rcases hnone with rfl | rfl <;> simp [Op.Clears]
  have hsets : ∀ other, ¬ (Op.clear name?).Sets other := by simp [Op.Sets]
  obtain ⟨hnodup, hmem⟩ := h.cleared hsets hclears
  refine ⟨_, _, ?_, h.unset hsets hclears, _, hnodup, hmem, rfl⟩
  unfold Store.clear
  simp [hname, texts, cleared]

end

variable {τ : Type}

/-- The host with another store. -/
def withStore (host : Host τ) (store : Bindings) : Host τ :=
  { host with context := { host.context with store := store } }

/-- What an effect answers that replaces the store. -/
theorem run_replacing {host : Host τ} {outcome : Result (Value × Bindings)} {v : Value}
    {store : Bindings} (h : outcome = .ok (v, store)) :
    (Act.ofResult outcome >>= Effect.keepStore : Act τ Value).run.run host =
      (.ok v, withStore host store) := by
  rw [h]
  rfl

/-- An effect answers by the history, and the store goes on telling it. -/
theorem run_of_tells {history : List Op} {entries : List (String × String)} {host : Host τ}
    {effect : Effect.Builtin} {args : Bindings} {op : Op} (h : Tells history entries)
    (hstore : host.context.store = texts entries) (hop : Op.of? effect args = some op) :
    ∃ v entries' host', (effect.run args).run.run host = (.ok v, host') ∧
      host'.context.store = texts entries' ∧ Tells (history ++ [op]) entries' ∧
      Answers history op v := by
  -- An effect that only asks leaves the entries as they are.
  have hasks : ∀ {op : Op}, (∀ name, ¬ op.Sets name) → (∀ name, ¬ op.Clears name) →
      Tells (history ++ [op]) entries := by
    intro op hsets hclears
    have hkeeps := h.unset hsets fun name => iff_of_false (hclears name) Bool.false_ne_true
    simpa using hkeeps
  unfold Op.of? at hop
  split at hop <;> cases hop
  next name text hname htext =>
    have hset := set_texts entries hname htext
    rw [← hstore] at hset
    exact ⟨_, _, _, run_replacing hset, rfl, h.set name text, rfl⟩
  next name _ hname =>
    obtain ⟨v, hget, hanswers⟩ := get_texts h hname
    refine ⟨v, entries, host, ?_, hstore, hasks (by simp [Op.Sets]) (by simp [Op.Clears]), hanswers⟩
    show (Act.ofResult (Store.get args host.context.store)).run.run host = _
    rw [hstore, hget]
    rfl
  next =>
    refine ⟨_, entries, host, ?_, hstore, hasks (by simp [Op.Sets]) (by simp [Op.Clears]),
      entries, h, rfl⟩
    show (Act.ofResult (Store.list host.context.store)).run.run host = _
    rw [hstore, list_texts]
    rfl
  next name hname =>
    have hclear : ∃ v entries', Store.clear args (texts entries) = .ok (v, texts entries') ∧
        Tells (history ++ [.clear (some name)]) entries' ∧
      Answers history (.clear (some name)) v := by
      by_cases hempty : name = ""
      · have htruth : (args.getD "name" .null).truth = false := by
          rw [hname, hempty]
          rfl
        exact clear_all h htruth (.inr (congrArg some hempty))
      · exact clear_one h hname hempty
    obtain ⟨v, entries', hclear, htells, hanswers⟩ := hclear
    rw [← hstore] at hclear
    exact ⟨v, entries', _, run_replacing hclear, rfl, htells, hanswers⟩
  next _ hname =>
    have htruth : (args.getD "name" .null).truth = false := by
      rw [hname]
      rfl
    obtain ⟨v, entries', hclear, htells, hanswers⟩ := clear_all h htruth (.inl rfl)
    rw [← hstore] at hclear
    exact ⟨v, entries', _, run_replacing hclear, rfl, htells, hanswers⟩

/-! ## Other effects -/

/-- A computation leaves the store as it is. -/
def Spares {α : Type} (x : Act τ α) : Prop :=
  ∀ host, (x.run.run host).2.context.store = host.context.store

namespace Spares

variable {α β : Type}

theorem pure (a : α) : Spares (Pure.pure a : Act τ α) := fun _ => rfl

theorem throw (failure : Failure) : Spares (MonadExcept.throw failure : Act τ α) := fun _ => rfl

theorem get : Spares (MonadState.get : Act τ (Host τ)) := fun _ => rfl

theorem ofResult (result : Result α) : Spares (Act.ofResult result : Act τ α) := by
  cases result with
  | ok a => exact pure a
  | error failure => exact throw failure

theorem bind {x : Act τ α} {f : α → Act τ β} (hx : Spares x) (hf : ∀ a, Spares (f a)) :
    Spares (x >>= f) := by
  intro host
  have hfirst := hx host
  rw [run_run_bind]
  rcases hrun : x.run.run host with ⟨failure | a, after⟩
  · rw [hrun] at hfirst
    exact hfirst
  · rw [hrun] at hfirst
    exact (hf a after).trans hfirst

theorem talk (t : Http.Talk α) : Spares (Act.talk t : Act τ α) :=
  fun host => ofResult (t.run.run host.world.network).1 _

theorem change (c : FileSystem.Change α) : Spares (Act.change c : Act τ α) :=
  fun host => ofResult (c.run.run host.world.files).1 _

end Spares

theorem spares_reading (read : Value → FileSystem → Bindings → Result Value) (args : Bindings) :
    Spares (Effect.reading read args : Act τ Value) :=
  Spares.get.bind fun _ => .ofResult _

theorem spares_fetch (args : Bindings) : Spares (Effect.fetch args : Act τ Value) := by
  unfold Effect.fetch
  split
  · exact .throw _
  · exact Spares.get.bind fun _ => .talk _
  · exact .throw _

theorem spares_writeFile (args : Bindings) : Spares (Effect.writeFile args : Act τ Value) :=
  Spares.get.bind fun _ => (Spares.ofResult _).bind fun _ => (Spares.change _).bind fun _ => .pure _

theorem spares_shell (args : Bindings) : Spares (Effect.shell args : Act τ Value) :=
  Spares.get.bind fun _ => (Spares.ofResult _).bind fun _ => (Spares.change _).bind fun _ => .pure _

theorem spares_search (args : Bindings) : Spares (Effect.search args : Act τ Value) :=
  Spares.get.bind fun _ => spares_reading _ args

/-- Whether an effect does something with the texts. -/
def isStoring : Effect.Builtin → Bool
  | .storeSet | .storeGet | .storeList | .storeClear => true
  | _ => false

theorem spares_run {effect : Effect.Builtin} (h : isStoring effect = false) (args : Bindings) :
    Spares (effect.run args : Act τ Value) := by
  cases effect with
  | fetch => exact spares_fetch args
  | writeFile => exact spares_writeFile args
  | shell => exact spares_shell args
  | grep => exact spares_search args
  | readFile | stat | slice | glob => exact spares_reading _ args
  | print | callModel => exact .pure _
  | storeSet | storeGet | storeList | storeClear => cases h

/-- An action leaves the store as it is: what every host offers beside the effects on texts, and
what a host does of its own if it keeps its hands off the store. -/
def SparesStore : Effect.Action τ → Prop
  | .builtin effect => isStoring effect = false
  | .custom answer => ∀ args, Spares (answer args)

theorem finishCall_store (pending : Model.Pending) (host : Host τ) :
    (Effect.finishCall pending host).2.context.store = host.context.store := by
  obtain ⟨failure | reply, expect⟩ := pending <;> rfl

theorem begin_store (args : Bindings) (context : Context) :
    (Model.begin args context).2.store = context.store := by
  unfold Model.begin
  cases Model.limitOf args context with
  | error failure => rfl
  | ok limit =>
    dsimp only
    by_cases hle : limit ≤ context.depth
    · rw [if_pos hle]
    · rw [if_neg hle]
      cases context.client with
      | none => rfl
      | some client =>
        dsimp only
        split <;> rfl

theorem startCall_store (args : Bindings) (host : Host τ) :
    (Effect.startCall args host).2.context.store = host.context.store := by
  have hbegin := begin_store args host.context
  unfold Effect.startCall
  generalize Model.begin args host.context = begun at hbegin ⊢
  obtain ⟨begun, context⟩ := begun
  cases begun with
  | refused => exact hbegin
  | failed failure => exact hbegin
  | asking client request =>
    dsimp only
    rcases Model.consult client request host.world with ⟨delivered, atOnce, world⟩
    cases atOnce with
    | false => exact hbegin
    | true => exact (finishCall_store _ _).trans hbegin

theorem start_storing {effect : Effect.Builtin} {args : Bindings} {op : Op}
    (hop : Op.of? effect args = some op) (host : Host τ) :
    (Effect.Action.builtin effect).start args host =
      (.finished ((effect.run args).run.run host).1, ((effect.run args).run.run host).2) := by
  cases effect with
  | callModel => cases hop
  | _ => rfl

/-- An effect that does nothing with the texts leaves the store as it is when it is started. -/
theorem start_store {table : Effect.Table τ} {name : String}
    (h : ∀ action, table.find? name = some action → SparesStore action)
    (args : Bindings) (host : Host τ) :
    (Dispatcher.start (.str name) args ⟨table, host, none⟩).2.2.host.context.store =
      host.context.store := by
  unfold Dispatcher.start
  rw [Dispatcher.resolve_str]
  cases hfind : table.find? name with
  | none => rfl
  | some action =>
    cases action with
    | custom answer => exact h _ hfind args host
    | builtin effect =>
      have hspares := spares_run (h _ hfind) args host
      cases effect with
      | callModel => exact startCall_store args host
      | _ => exact hspares

/-- So it does when it comes to its end. -/
theorem resume_store (started : Dispatcher.Started) (d : Dispatcher τ) :
    (d.resume started).host.host.context.store = d.host.context.store := by
  obtain ⟨name, outcome | pending⟩ := started
  · rfl
  · exact finishCall_store pending d.host

/-! ## Evaluations that share a host -/

/-- An effect that has been started. -/
structure Issued where
  /-- What it does with the texts, if it does something with them. -/
  op? : Option Op
  /-- Where it stands. -/
  started : Dispatcher.Started

/-- What evaluations that share a host have done so far. -/
structure Shared (τ : Type) where
  /-- The host. -/
  host : Host τ
  /-- The effects that have been started, whichever evaluation has asked for them. -/
  issued : List Issued
  /-- The answers that have been given, each to one of these effects. -/
  answers : List (Nat × Result Value)

/-- What was done with the texts before an effect was started. -/
def Shared.history (s : Shared τ) (k : Nat) : List Op := (s.issued.take k).filterMap Issued.op?

/-- Evaluations start effects, each with a table of its own, and any time later effects that have
been started come to their ends. -/
inductive Interleaving (host : Host τ) : Shared τ → Prop
  | begin : Interleaving host ⟨host, [], []⟩
  | store {s : Shared τ} {effect : Effect.Builtin} {op : Op} (table : Effect.Table τ)
      (name : String)
    (args : Bindings) :
    Interleaving host s → table.find? name = some (.builtin effect) →
      Op.of? effect args = some op →
      Interleaving host
        ⟨(Dispatcher.start (.str name) args ⟨table, s.host, none⟩).2.2.host,
          s.issued ++ [⟨some op, (Dispatcher.start (.str name) args ⟨table, s.host, none⟩).1⟩],
          s.answers⟩
  | other {s : Shared τ} (table : Effect.Table τ) (name : String) (args : Bindings) :
    Interleaving host s → (∀ action, table.find? name = some action → SparesStore action) →
      Interleaving host
        ⟨(Dispatcher.start (.str name) args ⟨table, s.host, none⟩).2.2.host,
          s.issued ++ [⟨none, (Dispatcher.start (.str name) args ⟨table, s.host, none⟩).1⟩],
          s.answers⟩
  | resume {s : Shared τ} {k : Nat} {issued : Issued} (table : Effect.Table τ) :
    Interleaving host s → s.issued[k]? = some issued →
      Interleaving host
        ⟨(Dispatcher.resume issued.started ⟨table, s.host, none⟩).host.host, s.issued,
          s.answers ++ [(k, (Dispatcher.resume issued.started ⟨table, s.host, none⟩).outcome)]⟩

/-- An outcome is the answer to an effect, if that does something with the texts. -/
def Shared.Told (s : Shared τ) (k : Nat) (outcome : Result Value) : Prop :=
  ∃ issued, s.issued[k]? = some issued ∧ ∀ op, issued.op? = some op →
    ∃ v, outcome = .ok v ∧ Answers (s.history k) op v

/-- What holds of evaluations that share a host at every time. -/
structure Shared.Lawful (s : Shared τ) : Prop where
  store : ∃ entries, s.host.context.store = texts entries ∧
    Tells (s.issued.filterMap Issued.op?) entries
  /-- An effect that does something with the texts has been answered as soon as it is started. -/
  standing : ∀ k issued, s.issued[k]? = some issued → ∀ op, issued.op? = some op →
    ∃ v, issued.started.standing = .finished (.ok v) ∧ Answers (s.history k) op v
  answers : ∀ answer ∈ s.answers, s.Told answer.1 answer.2

namespace Shared

variable {s : Shared τ} {k : Nat}

theorem history_concat {host : Host τ} {x : Issued} (hk : k ≤ s.issued.length) :
    history ⟨host, s.issued ++ [x], s.answers⟩ k = s.history k := by
  unfold history
  rw [List.take_append_of_le_length hk]

namespace Lawful

theorem begin {host : Host τ} (h : host.context.store = []) : Lawful ⟨host, [], []⟩ where
  store := ⟨[], h, .nil⟩
  standing := fun _ _ hissued => nomatch hissued
  answers := fun _ hanswer => nomatch hanswer

/-- One effect more is started. -/
theorem concat (h : s.Lawful) {host : Host τ} {x : Issued}
    (hstore : ∃ entries, host.context.store = texts entries ∧
      Tells (s.issued.filterMap Issued.op? ++ x.op?.toList) entries)
    (hx : ∀ op, x.op? = some op → ∃ v, x.started.standing = .finished (.ok v) ∧
      Answers (s.issued.filterMap Issued.op?) op v) :
    Lawful ⟨host, s.issued ++ [x], s.answers⟩ where
  store := by
    obtain ⟨entries, hentries, htells⟩ := hstore
    refine ⟨entries, hentries, ?_⟩
    rw [List.filterMap_append]
    cases hop : x.op? <;> simpa [hop] using htells
  standing := by
    intro k issued hissued op hop
    rcases Nat.lt_trichotomy k s.issued.length with hlt | rfl | hgt
    · rw [List.getElem?_append_left hlt] at hissued
      rw [history_concat (Nat.le_of_lt hlt)]
      exact h.standing k issued hissued op hop
    · have hlast : x = issued := by simpa using hissued
      subst hlast
      obtain ⟨v, hstanding, hanswers⟩ := hx op hop
      refine ⟨v, hstanding, ?_⟩
      rw [history_concat (Nat.le_refl _), history, List.take_length]
      exact hanswers
    · have hlast := (List.getElem?_eq_some_iff.1 hissued).1
      rw [List.length_append, List.length_singleton] at hlast
      omega
  answers := by
    intro answer hanswer
    obtain ⟨issued, hissued, htold⟩ := h.answers answer hanswer
    have hlt : answer.1 < s.issued.length := (List.getElem?_eq_some_iff.1 hissued).1
    refine ⟨issued, ?_, fun op hop => ?_⟩
    · exact (List.getElem?_append_left hlt).trans hissued
    · rw [history_concat (Nat.le_of_lt hlt)]
      exact htold op hop

end Lawful

end Shared

/-- Whatever the evaluations have done so far. -/
theorem Interleaving.lawful {host : Host τ} (hempty : host.context.store = []) {s : Shared τ}
    (h : Interleaving host s) : s.Lawful := by
  induction h with
  | begin => exact .begin hempty
  | @store s effect op table name args _ hfind hop ih =>
    obtain ⟨entries, hstore, htells⟩ := ih.store
    obtain ⟨v, entries', host', hrun, hstore', htells', hanswers⟩ := run_of_tells htells hstore hop
    have hstart : Dispatcher.start (.str name) args ⟨table, s.host, none⟩ =
        (⟨name, .finished (.ok v)⟩, [.effect (.str name) args], ⟨table, host', none⟩) := by
      unfold Dispatcher.start
      rw [Dispatcher.resolve_str]
      dsimp only
      rw [hfind]
      dsimp only
      rw [start_storing hop, hrun]
    rw [hstart]
    refine ih.concat ⟨entries', hstore', htells'⟩ ?_
    rintro _ ⟨⟩
    exact ⟨v, rfl, hanswers⟩
  | @other s table name args _ hother ih =>
    obtain ⟨entries, hstore, htells⟩ := ih.store
    refine ih.concat ⟨entries, (start_store hother args s.host).trans hstore, ?_⟩ ?_
    · simpa using htells
    · exact fun _ hop => nomatch hop
  | @resume s k issued table _ hissued ih =>
    obtain ⟨entries, hstore, htells⟩ := ih.store
    refine ⟨⟨entries, (resume_store issued.started ⟨table, s.host, none⟩).trans hstore, htells⟩,
      ih.standing, ?_⟩
    intro answer hanswer
    rcases List.mem_append.1 hanswer with hanswer | hanswer
    · exact ih.answers answer hanswer
    · obtain rfl := List.mem_singleton.1 hanswer
      refine ⟨issued, hissued, fun op hop => ?_⟩
      obtain ⟨v, hstanding, hanswers⟩ := ih.standing k issued hissued op hop
      refine ⟨v, ?_, hanswers⟩
      dsimp only [Dispatcher.resume]
      rw [hstanding]

/-- Let any number of evaluations share a host in which no texts are kept at the beginning, and let
them start effects and get their answers in any order. Then an effect that does something with the
texts has answered by the history of those that were started before it. A name is told the text
that it was given last, unless it has been cleared since, by itself or with all others. The names
that have a text are listed once each, by the moment when they got one after having none, with the
lengths of their texts. To clear is answered by the number of names that had a text before and have
none after it. -/
theorem answers_of_history {host : Host τ} (hempty : host.context.store = []) {s : Shared τ}
    (h : Interleaving host s) :
    ∀ k outcome, (k, outcome) ∈ s.answers →
      ∃ issued, s.issued[k]? = some issued ∧ ∀ op, issued.op? = some op →
        ∃ v, outcome = .ok v ∧ Answers (s.history k) op v :=
  fun k outcome hanswer => (h.lawful hempty).answers (k, outcome) hanswer

/-- A host in which no texts are kept. -/
def emptyHost : Host Unit := ⟨.default, .ofFiles .bundled default, ()⟩

/-- A name and a text as arguments. -/
def arguments (name text : String) : Bindings :=
  [(.str "name", .str name), (.str "text", .str text)]

/-- A name is given a text, is cleared, and is given another after a second name. It comes last in
the list, whose answer is the first to be got. -/
theorem answers_of_history_list :
    let history : List Op := [.set "a" "x", .clear (some "a"), .set "b" "yz", .set "a" "xyz"]
    let listed : Value := .list [.ofFields [("name", .str "b"), ("length", .int 2)],
      .ofFields [("name", .str "a"), ("length", .int 3)]]
    let cleared : Value := .ofFields [("cleared", .int 1)]
    ∃ s, Interleaving emptyHost s ∧ s.history 4 = history ∧
      s.answers = [(4, .ok listed), (1, .ok cleared)] ∧ Answers history .list listed ∧
      Answers [.set "a" "x"] (.clear (some "a")) cleared := by
  intro history listed cleared
  obtain ⟨s, h, hlist, hclear, hhistory, hbefore, hanswers⟩ : ∃ s, Interleaving emptyHost s ∧
      s.issued[4]?.bind Issued.op? = some .list ∧
      s.issued[1]?.bind Issued.op? = some (.clear (some "a")) ∧
      s.history 4 = history ∧ s.history 1 = [.set "a" "x"] ∧
      s.answers = [(4, .ok listed), (1, .ok cleared)] := by
    have h₀ : Interleaving emptyHost _ := .begin
    have h₁ := h₀.store .builtin "context_set" (arguments "a" "x") rfl rfl
    have h₂ := h₁.store .builtin "context_clear" [(.str "name", .str "a")] rfl rfl
    have h₃ := h₂.store .builtin "context_set" (arguments "b" "yz") rfl rfl
    have h₄ := h₃.store .builtin "context_set" (arguments "a" "xyz") rfl rfl
    have h₅ := h₄.store .builtin "context_list" [] rfl rfl
    have h₆ := h₅.resume .builtin (k := 4) rfl
    have h₇ := h₆.resume .builtin (k := 1) rfl
    exact ⟨_, h₇, rfl, rfl, rfl, rfl, rfl⟩
  have hlaw : ∀ k op v, s.issued[k]?.bind Issued.op? = some op → (k, .ok v) ∈ s.answers →
      Answers (s.history k) op v := by
    intro k op v hop hmem
    obtain ⟨issued, hissued, hlaw⟩ := answers_of_history rfl h k (.ok v) hmem
    rw [hissued] at hop
    obtain ⟨_, ⟨⟩, hlaw⟩ := hlaw op hop
    exact hlaw
  refine ⟨s, h, hhistory, hanswers, ?_, ?_⟩
  · rw [← hhistory]
    exact hlaw 4 .list listed hlist (by rw [hanswers]; exact .head _)
  · rw [← hbefore]
    exact hlaw 1 _ cleared hclear (by rw [hanswers]; exact .tail _ (.head _))

end TreeScript.Store
