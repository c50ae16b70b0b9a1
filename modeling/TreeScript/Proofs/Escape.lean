import TreeScript.Proofs.TextFailures
import TreeScript.Proofs.WireFormat
import TreeScript.Session
import TreeScript.Yaml.Bundled

/-!
# Failures that a session passes on

A session reports what goes wrong in words: a text that cannot be read, a tree that is no program, a
program that fails. Some failures are none of these and are passed on to the caller in the place of
a report. This happens in three ways, one for each phase of a run (`Session.Escapes`): the YAML
library fails on the text with neither an error of YAML nor a wrong value; the decoder meets a tag
that cannot be compared or a name that cannot be shown (`Value.Unusable`); or the run fails and the
arguments of the calls that are then under way cannot be shown.

Texts whose documents hold themselves are set aside: such a document is no value, and what comes of
it depends on which part of it is asked for.
-/

namespace TreeScript

open Result.FailsWith (pure throw)

/-! ## Decoding -/

/-- A part of a tree that decoding can come to: the tree itself, an element of a list or the value
of a field. -/
inductive Value.Part (tree : Value) : Value → Prop
  | whole : Part tree tree
  | item {items : List Value} {v : Value} : Part tree (.list items) → v ∈ items → Part tree v
  | field {entries : Bindings} {k v : Value} :
    Part tree (.map entries) → (k, v) ∈ entries → Part tree v

/-- Why a tree has no verdict: what stands as a tag cannot be a key, or an environment stands in the
place of a name or of a literal and its own names are not all texts. -/
inductive Value.Unusable (tree : Value) : TypeFault → Prop
  | tag {entries : Bindings} {v : Value} {kind : String} : tree.Part (.map entries) →
    Bindings.get? entries "type" = some v → v.unhashable? = some kind →
      Unusable tree (.unhashable kind)
  | unnamed {v : Value} {index : Nat} {found : String} : tree.Part v →
    v.literalText = .error (.type (.notAName index found)) → Unusable tree (.notAName index found)

/-- What decoding a tree can fail with: a flaw of the program, or a part that cannot be used. -/
def Value.DecodeFault (tree : Value) (failure : Failure) : Prop :=
  (∃ flaw, failure = .malformed flaw) ∨ ∃ fault, failure = .type fault ∧ tree.Unusable fault

section

variable {tree : Value}

theorem flawed {α : Type} (flaw : Flaw) :
    (MonadExcept.throw (.malformed flaw) : Result α).FailsWith tree.DecodeFault :=
  throw (.inl ⟨flaw, rfl⟩)

/-- Parts of a tree are shown where a flaw names them. -/
theorem Value.Part.literalText_fails {v : Value} (hv : tree.Part v) :
    v.literalText.FailsWith tree.DecodeFault := by
  intro failure h
  obtain ⟨index, found, rfl⟩ := v.literalText_fails failure h
  exact .inr ⟨_, rfl, .unnamed hv h⟩

theorem Value.Part.get? {entries : Bindings} {name : String} {v : Value}
    (hmap : tree.Part (.map entries)) (h : Bindings.get? entries name = some v) : tree.Part v := by
  obtain ⟨k, hmem⟩ := Bindings.mem_of_get? h
  exact hmap.field hmem

theorem requireField_fails (tag : Tag) (field : String) (entries : Bindings) :
    (requireField tag field entries).FailsWith tree.DecodeFault := by
  unfold requireField
  split
  next => exact pure _
  next => exact flawed _

theorem part_of_requireField {tag : Tag} {field : String} {entries : Bindings} {v : Value}
    (hmap : tree.Part (.map entries)) (h : requireField tag field entries = .ok v) :
    tree.Part v := by
  unfold requireField at h
  split at h
  next w hw =>
    cases h
    exact hmap.get? hw
  next => cases h

theorem nameOf_fails (place : String) {v : Value} (hv : tree.Part v) :
    (nameOf place v).FailsWith tree.DecodeFault := by
  unfold nameOf
  extract_lets named
  have hnamed : named.literalText.FailsWith tree.DecodeFault := by
    unfold named
    split
    next entries =>
      split
      next =>
        unfold Bindings.getD
        cases h : Bindings.get? entries "key" with
        | none =>
          rw [Option.getD_none, Value.literalText]
          exact pure _
        | some w => exact (hv.get? h).literalText_fails
      next => exact hv.literalText_fails
    next => exact hv.literalText_fails
  clear_value named
  cases named with
  | str s =>
    by_cases hs : s = ""
    · simp only [hs, beq_self_eq_true, if_true]
      exact flawed _
    · simp only [beq_iff_eq, hs, if_false]
      exact pure _
  | _ => exact hnamed.bind fun _ _ => flawed _

theorem numberOf_fails {v : Value} (hv : tree.Part v) :
    (numberOf v).FailsWith tree.DecodeFault := by
  cases v with
  | int | float => exact pure _
  | _ => exact hv.literalText_fails.bind fun _ _ => flawed _

theorem stringOf_fails {v : Value} (hv : tree.Part v) :
    (stringOf v).FailsWith tree.DecodeFault := by
  cases v with
  | str => exact pure _
  | _ => exact hv.literalText_fails.bind fun _ _ => flawed _

theorem booleanOf_fails {v : Value} (hv : tree.Part v) :
    (booleanOf v).FailsWith tree.DecodeFault := by
  cases v with
  | bool => exact pure _
  | _ => exact hv.literalText_fails.bind fun _ _ => flawed _

theorem operatorOf_fails {Op : Type} (tag : Tag) (ofSymbol? : String → Option Op) {v : Value}
    (hv : tree.Part v) : (operatorOf tag ofSymbol? v).FailsWith tree.DecodeFault := by
  unfold operatorOf
  extract_lets spelled
  cases spelled with
  | some op => exact pure _
  | none => exact hv.literalText_fails.bind fun _ _ => flawed _

theorem atLeastTwo_fails (tag : Tag) (operands : List Expr) :
    (atLeastTwo tag operands).FailsWith tree.DecodeFault := by
  unfold atLeastTwo
  split
  next => exact flawed _
  next => exact pure _

theorem inputsOf_fails {v : Value} (hv : tree.Part v) :
    (inputsOf v).FailsWith tree.DecodeFault := by
  cases v with
  | list items => exact .mapM fun item hitem => nameOf_fails _ (hv.item hitem)
  | _ => exact flawed _

theorem checkCallee_fails (callee : Expr) : (checkCallee callee).FailsWith tree.DecodeFault := by
  unfold checkCallee
  split
  next => exact pure _
  next => exact pure _
  next => exact flawed _

theorem bindOf_fails {entries : Bindings} (hmap : tree.Part (.map entries)) :
    (bindOf entries).FailsWith tree.DecodeFault := by
  unfold bindOf Bindings.getD
  cases h : Bindings.get? entries "bind" with
  | none => exact pure _
  | some v =>
    rw [Option.getD_some]
    split
    next => exact pure _
    next => exact (nameOf_fails _ (hmap.get? h)).map _

/-- The tag is the one place where a value is compared before its kind is known. -/
theorem requireTag_fails {entries : Bindings} (hmap : tree.Part (.map entries)) :
    (requireTag entries).FailsWith tree.DecodeFault := by
  unfold requireTag Bindings.getD
  cases h : Bindings.get? entries "type" with
  | none =>
    split
    next => exact pure _
    next => exact flawed _
  | some v =>
    refine Result.FailsWith.bind ?_ fun _ _ => ?_
    · unfold Value.checkKey
      split
      next kind hkind => exact throw (.inr ⟨_, rfl, .tag hmap h hkind⟩)
      next => exact pure _
    · split
      next => exact pure _
      next => exact (hmap.get? h).literalText_fails.bind fun _ _ => flawed _

theorem orMissing_fails {α : Type} (tag : Tag) (field : String) {found : Option (Result α)}
    (h : ∀ result ∈ found, result.FailsWith tree.DecodeFault) :
    (orMissing tag field found).FailsWith tree.DecodeFault := by
  cases found with
  | none => exact flawed _
  | some result => exact h result rfl

mutual

/-- Decoding a part of a tree fails with a flaw, or because of a part of the tree that cannot be
used. -/
theorem ofValue_fails : ∀ v : Value, tree.Part v → (Expr.ofValue v).FailsWith tree.DecodeFault
  | .list items, hv => by
    rw [Expr.ofValue]
    exact (exprsOf_fails items fun v hmem => hv.item hmem).bind fun _ _ => pure _
  | .node e, _ => by
    rw [Expr.ofValue]
    exact pure _
  | .map entries, hv => by
    rw [Expr.ofValue]
    refine (requireTag_fails hv).bind fun tag _ => ?_
    -- every field is a part of the tree, whichever of them the tag asks for
    have hfields : ∀ entry ∈ entries, tree.Part entry.2 := fun entry hmem => hv.field hmem
    cases tag with
    | number =>
      exact (requireField_fails _ _ _).bind fun v h => numberOf_fails (part_of_requireField hv h)
    | string =>
      exact (requireField_fails _ _ _).bind fun v h => stringOf_fails (part_of_requireField hv h)
    | boolean =>
      exact (requireField_fails _ _ _).bind fun v h => booleanOf_fails (part_of_requireField hv h)
    | «variable» =>
      refine (requireField_fails _ _ _).bind fun v h => ?_
      exact (nameOf_fails _ (part_of_requireField hv h)).bind fun _ _ => pure _
    | arithmetic =>
      refine (requireField_fails _ _ _).bind fun v h => ?_
      refine (operatorOf_fails _ _ (part_of_requireField hv h)).bind fun _ _ => ?_
      refine (orMissing_fails _ _ (exprsField_fails _ _ entries hfields)).bind fun _ _ => ?_
      exact (atLeastTwo_fails _ _).bind fun _ _ => pure _
    | comparison =>
      refine (requireField_fails _ _ _).bind fun v h => ?_
      refine (operatorOf_fails _ _ (part_of_requireField hv h)).bind fun _ _ => ?_
      refine (orMissing_fails _ _ (exprsField_fails _ _ entries hfields)).bind fun _ _ => ?_
      exact (atLeastTwo_fails _ _).bind fun _ _ => pure _
    | conditional =>
      refine (orMissing_fails _ _ (exprField_fails _ entries hfields)).bind fun _ _ => ?_
      refine (orMissing_fails _ _ (exprField_fails _ entries hfields)).bind fun _ _ => ?_
      exact (orMissing_fails _ _ (exprField_fails _ entries hfields)).bind fun _ _ => pure _
    | procedure =>
      refine (requireField_fails _ _ _).bind fun v h => ?_
      refine (inputsOf_fails (part_of_requireField hv h)).bind fun _ _ => ?_
      exact (orMissing_fails _ _ (exprField_fails _ entries hfields)).bind fun _ _ => pure _
    | call =>
      refine (orMissing_fails _ _ (exprField_fails _ entries hfields)).bind fun _ _ => ?_
      refine (checkCallee_fails _).bind fun _ _ => ?_
      exact (orMissing_fails _ _ (exprsField_fails _ _ entries hfields)).bind fun _ _ => pure _
    | definition =>
      refine (requireField_fails _ _ _).bind fun v h => ?_
      refine (nameOf_fails _ (part_of_requireField hv h)).bind fun _ _ => ?_
      exact (orMissing_fails _ _ (exprField_fails _ entries hfields)).bind fun _ _ => pure _
    | effect =>
      refine (requireField_fails _ _ _).bind fun v h => ?_
      refine (nameOf_fails _ (part_of_requireField hv h)).bind fun _ _ => ?_
      refine (argsField_fails entries hfields).bind fun _ _ => ?_
      refine (bindOf_fails hv).bind fun _ _ => ?_
      exact (nextField_fails entries hfields).bind fun _ _ => pure _
  | .null, _ | .bool _, _ | .int _, _ | .float _, _ | .str _, _ | .tuple _, _ | .env _, _
  | .object _, _ | .set _, _ | .bytes _, _ | .date _, _ | .datetime _, _ | .undefined, _
  | .closure .., _ | .literal _, _ => by
    simp only [Expr.ofValue]
    exact flawed _
termination_by structural v => v

theorem exprsOf_fails : ∀ vs : List Value, (∀ v ∈ vs, tree.Part v) →
    (exprsOf vs).FailsWith tree.DecodeFault
  | [], _ => by
    rw [exprsOf]
    exact pure _
  | v :: rest, h => by
    rw [exprsOf]
    have hrest := exprsOf_fails rest fun w hmem => h w (List.mem_cons_of_mem v hmem)
    exact (ofValue_fails v (h v List.mem_cons_self)).bind fun _ _ => hrest.bind fun _ _ => pure _
termination_by structural vs => vs

theorem exprField_fails (field : String) : ∀ entries : List (Value × Value),
    (∀ entry ∈ entries, tree.Part entry.2) →
      ∀ result ∈ exprField? field entries, result.FailsWith tree.DecodeFault
  | [], _ => by simp [exprField?]
  | (k, v) :: rest, h => by
    intro result hresult
    rw [exprField?] at hresult
    split at hresult
    · cases hresult
      exact ofValue_fails v (h _ List.mem_cons_self)
    · exact exprField_fails field rest
        (fun e hmem => h e (List.mem_cons_of_mem _ hmem)) result hresult
termination_by structural entries => entries

theorem exprsField_fails (tag : Tag) (field : String) : ∀ entries : List (Value × Value),
    (∀ entry ∈ entries, tree.Part entry.2) →
      ∀ result ∈ exprsField? tag field entries, result.FailsWith tree.DecodeFault
  | [], _ => by simp [exprsField?]
  | (k, v) :: rest, h => by
    intro result hresult
    rw [exprsField?] at hresult
    split at hresult
    · cases hresult
      exact exprsOfValue_fails tag field v (h _ List.mem_cons_self)
    · exact exprsField_fails tag field rest (fun e hmem => h e (List.mem_cons_of_mem _ hmem)) result
        hresult
termination_by structural entries => entries

theorem exprsOfValue_fails (tag : Tag) (field : String) : ∀ v : Value, tree.Part v →
    (exprsOfValue tag field v).FailsWith tree.DecodeFault
  | v, hv => by
    cases v with
    | list items =>
      rw [exprsOfValue]
      exact exprsOf_fails items fun v hmem => hv.item hmem
    | _ =>
      simp only [exprsOfValue]
      exact flawed _
termination_by structural v => v

theorem argsField_fails : ∀ entries : List (Value × Value),
    (∀ entry ∈ entries, tree.Part entry.2) → (argsField entries).FailsWith tree.DecodeFault
  | [], _ => by
    rw [argsField]
    exact pure _
  | (k, v) :: rest, h => by
    rw [argsField]
    split
    · exact argsOfValue_fails v (h _ List.mem_cons_self)
    · exact argsField_fails rest fun e hmem => h e (List.mem_cons_of_mem _ hmem)
termination_by structural entries => entries

theorem argsOfValue_fails : ∀ v : Value, tree.Part v →
    (argsOfValue v).FailsWith tree.DecodeFault
  | v, hv => by
    cases v with
    | map entries =>
      rw [argsOfValue]
      exact argsOf_fails entries fun e hmem => hv.field hmem
    | _ =>
      simp only [argsOfValue]
      split
      · exact flawed _
      · exact pure _
termination_by structural v => v

theorem argsOf_fails : ∀ entries : List (Value × Value),
    (∀ entry ∈ entries, tree.Part entry.2) → (argsOf entries).FailsWith tree.DecodeFault
  | [], _ => by
    rw [argsOf]
    exact pure _
  | (k, v) :: rest, h => by
    have hv := ofValue_fails v (h _ List.mem_cons_self)
    have hrest := argsOf_fails rest fun e hmem => h e (List.mem_cons_of_mem _ hmem)
    have harg : (readArg v).FailsWith tree.DecodeFault := by
      unfold readArg
      split
      · exact hv.map _
      · exact pure _
    rw [argsOf_cons]
    exact harg.bind fun _ _ => hrest.bind fun _ _ => pure _
termination_by structural entries => entries

theorem nextField_fails : ∀ entries : List (Value × Value),
    (∀ entry ∈ entries, tree.Part entry.2) → (nextField entries).FailsWith tree.DecodeFault
  | [], _ => by
    rw [nextField]
    exact pure _
  | (k, v) :: rest, h => by
    rw [nextField]
    split
    · split
      · exact pure _
      · exact (ofValue_fails v (h _ List.mem_cons_self)).map _
    · exact nextField_fails rest fun e hmem => h e (List.mem_cons_of_mem _ hmem)
termination_by structural entries => entries

end

end

theorem Value.part_of_mem_programs {tree v : Value} (h : v ∈ Session.programs tree) :
    tree.Part v := by
  unfold Session.programs at h
  split at h
  next items => exact Value.Part.whole.item h
  next =>
    rw [List.mem_singleton.1 h]
    exact .whole

theorem programs_fail (tree : Value) :
    ((Session.programs tree).mapM Expr.ofValue).FailsWith tree.DecodeFault :=
  .mapM fun v h => ofValue_fails v (Value.part_of_mem_programs h)

/-! ## Reading -/

/-- The text of a program that is given as one. -/
def Value.programText? : Value → Option String
  | .str text => some text
  | .bytes octets => some (Text.decodeLossy octets)
  | _ => none

/-- Whether a text is taken for JSON and is JSON. -/
def Document.isJson (text : String) : Bool := detect text == some .json && (Json.read? text).isSome

theorem Document.read_of_isJson (yaml : Yaml.Library) {text : String}
    (h : Document.isJson text = true) : ∃ v, Document.read yaml text = .ok v := by
  obtain ⟨hjson, hread⟩ : detect text == some .json ∧ (Json.read? text).isSome = true := by
    simpa only [Document.isJson, Bool.and_eq_true] using h
  obtain ⟨v, hv⟩ := Option.isSome_iff_exists.1 hread
  exact ⟨v, by simp [Document.read, Document.readAs, hjson, hv]⟩

theorem Document.read_of_not_isJson (yaml : Yaml.Library) {text : String}
    (h : Document.isJson text = false) :
    Document.read yaml text = match yaml.load text with
      | .ok v => .ok v
      | .error .unreadable =>
        .error (.value ("could not parse program text: " ++ unreadableMessage))
      | .error fault => .error fault.failure := by
  have hnone : (if detect text == some .json then Json.read? text else none) = none := by
    split
    next hjson => simpa [Document.isJson, hjson] using h
    next => rfl
  rw [Document.read, Document.readAs, hnone]
  rfl

/-- A failure to read that is no wrong value comes from the YAML library as it is. -/
theorem Document.read_eq_error_iff {yaml : Yaml.Library} {text : String}
    (hfinite : yaml.load text ≠ .error .endless) (failure : Failure) :
    (Document.read yaml text = .error failure ∧ failure.isOfValue = false) ↔
      Document.isJson text = false ∧ yaml.load text = .error (.raised failure) ∧
        failure.isOfValue = false := by
  by_cases hjson : Document.isJson text = true
  · obtain ⟨v, hv⟩ := Document.read_of_isJson yaml hjson
    simp [hjson, hv]
  · rw [Bool.not_eq_true] at hjson
    rw [Document.read_of_not_isJson yaml hjson]
    cases hload : yaml.load text with
    | ok v => simp
    | error fault =>
      cases fault with
      | unreadable =>
        refine ⟨fun ⟨h, hvalue⟩ => ?_, fun ⟨_, h, _⟩ => ?_⟩
        · cases h
          cases hvalue
        · cases h
      | raised other =>
        simp only [Yaml.Fault.failure, Except.error.injEq, Yaml.Fault.raised.injEq, hjson, true_and]
      | endless => exact absurd hload hfinite

/-- What is passed on when the text of a program is read. -/
theorem Session.parse_eq_error_iff {yaml : Yaml.Library} {p : Value}
    (hfinite : ∀ text, p.programText? = some text → yaml.load text ≠ .error .endless)
    (failure : Failure) :
    (Session.parse yaml p = .error failure ∧ failure.isOfValue = false) ↔
      ∃ text, p.programText? = some text ∧ Document.isJson text = false ∧
        yaml.load text = .error (.raised failure) ∧ failure.isOfValue = false := by
  cases p with
  | str text =>
    simp [Session.parse, Value.programText?, Document.read_eq_error_iff (hfinite text rfl)]
  | bytes octets =>
    simp [Session.parse, Value.programText?, Document.read_eq_error_iff (hfinite _ rfl)]
  | _ => simp [Session.parse, Value.programText?]

/-! ## Reporting -/

/-- The failure to show the first argument, of the outermost call, that cannot be shown. -/
def firstUnshown (calls : List Frame) : Option Failure :=
  (calls.flatMap Frame.args).findSome? fun v => v.brief.failure?

theorem Frame.failure?_text (frame : Frame) :
    frame.text.failure? = frame.args.findSome? fun v => v.brief.failure? := by
  rw [← Result.failure?_mapM]
  exact Result.failure?_bind_ok _ _

theorem firstUnshown_eq_findSome? (calls : List Frame) :
    firstUnshown calls = calls.findSome? fun frame => frame.text.failure? := by
  induction calls with
  | nil => rfl
  | cons frame rest ih =>
    unfold firstUnshown at ih ⊢
    rw [List.flatMap_cons, List.findSome?_append, ih, List.findSome?_cons, Frame.failure?_text]
    cases frame.args.findSome? fun v => v.brief.failure? <;> rfl

theorem stackText_eq_error_iff {calls : List Frame} {failure : Failure} :
    stackText calls = .error failure ↔ firstUnshown calls = some failure := by
  rw [← Result.failure?_eq_some]
  suffices h : (stackText calls).failure? = firstUnshown calls by rw [h]
  unfold stackText
  split
  next hempty =>
    rw [List.isEmpty_iff.1 hempty]
    rfl
  next =>
    calc _ = Result.failure? (calls.mapM Frame.text) := Result.failure?_bind_ok _ _
      _ = calls.findSome? fun frame => frame.text.failure? := Result.failure?_mapM _ _
      _ = firstUnshown calls := (firstUnshown_eq_findSome? calls).symm

theorem Value.brief_fails (v : Value) : v.brief.FailsWith Failure.IsTypeFault := by
  unfold Value.brief
  split
  next => exact pure _
  next => exact pure _
  next => exact pure _
  next => exact v.shown_fails

theorem firstUnshown_isTypeFault {calls : List Frame} {failure : Failure}
    (h : firstUnshown calls = some failure) : failure.IsTypeFault := by
  obtain ⟨v, -, hv⟩ := List.exists_of_findSome?_eq_some h
  exact v.brief_fails failure (Result.failure?_eq_some.1 hv)

/-! ## What is passed on -/

namespace Session

variable {σ : Type}

/-- The failures that a session passes on, with how they come about. -/
inductive Escapes (s : Session σ) (fuel : Nat) (p : Value) : Failure → Prop
  /-- The YAML library fails on the text of the program, and not because of a wrong value. -/
  | reading {text : String} {failure : Failure} : p.programText? = some text →
    Document.isJson text = false → s.yaml.load text = .error (.raised failure) →
    failure.isOfValue = false → Escapes s fuel p failure
  /-- The first of the programs that is none has a part that cannot be used. -/
  | decoding {tree : Value} {fault : TypeFault} : parse s.yaml p = .ok tree →
    (programs tree).mapM Expr.ofValue = .error (.type fault) → tree.Unusable fault →
      Escapes s fuel p (.type fault)
  /-- The run fails, and an argument of a call under way cannot be shown. -/
  | reporting {tree : Value} {es : List Expr} {failure : Failure} {machine : Machine σ}
    {fault : TypeFault} : parse s.yaml p = .ok tree →
    (programs tree).mapM Expr.ofValue = .ok es →
    (evalAll s.handler fuel es s.env).run.run s.fresh.machine =
      (.error (.failure failure), machine) →
    firstUnshown machine.calls = some (.type fault) → Escapes s fuel p (.type fault)

theorem fail_returns (message : String) (s : Session σ) :
    (s.fail message).1 = .ok (.error message) := rfl

/-- A failed run is passed on exactly if its calls cannot be shown. -/
theorem stopped_raises_iff (failure other : Failure) (s : Session σ) :
    (s.stopped (.failure other)).1 = .error (.failure failure) ↔
      firstUnshown s.machine.calls = some failure := by
  rw [← stackText_eq_error_iff]
  simp only [stopped]
  cases stackText s.machine.calls with
  | error inner => simp
  | ok stack => split <;> simp_all [fail_returns]

theorem run_raises_iff (fuel : Nat) (es : List Expr) (failure : Failure) (s : Session σ) :
    (s.run fuel es).1 = .error (.failure failure) ↔
      ∃ other machine, (evalAll s.handler fuel es s.env).run.run s.machine =
        (.error (.failure other), machine) ∧ firstUnshown machine.calls = some failure := by
  unfold run
  obtain ⟨outcome, machine⟩ := (evalAll s.handler fuel es s.env).run.run s.machine
  cases outcome with
  | ok result =>
    refine ⟨fun h => ?_, fun ⟨_, _, h, _⟩ => ?_⟩ <;> cases h
  | error stop =>
    cases stop with
    | outOfFuel =>
      refine ⟨fun h => ?_, fun ⟨_, _, h, _⟩ => ?_⟩ <;> cases h
    | failure other =>
      rw [stopped_raises_iff]
      constructor
      · intro h
        exact ⟨other, machine, rfl, h⟩
      · rintro ⟨_, _, h, hunshown⟩
        cases h
        exact hunshown

section

variable {s : Session σ} {fuel : Nat} {p tree : Value}

theorem handle_of_unread {failure : Failure} (hparse : parse s.yaml p = .error failure) :
    s.handle fuel p = if failure.isOfValue then s.fresh.fail s!"ParseError: {failure.message}"
      else (.error (.failure failure), s.fresh) := by
  unfold handle
  rw [hparse]

theorem handle_of_flawed {flaw : Flaw} (hparse : parse s.yaml p = .ok tree)
    (hdecode : (programs tree).mapM Expr.ofValue = .error (.malformed flaw)) :
    s.handle fuel p = s.fresh.fail s!"MalformedProgram: {flaw.message}" := by
  unfold handle
  rw [hparse]
  dsimp only
  rw [hdecode]

theorem handle_of_undecodable {fault : TypeFault} (hparse : parse s.yaml p = .ok tree)
    (hdecode : (programs tree).mapM Expr.ofValue = .error (.type fault)) :
    s.handle fuel p = (.error (.failure (.type fault)), s.fresh) := by
  unfold handle
  rw [hparse]
  dsimp only
  rw [hdecode]

theorem handle_of_decoded {es : List Expr} (hparse : parse s.yaml p = .ok tree)
    (hdecode : (programs tree).mapM Expr.ofValue = .ok es) :
    s.handle fuel p = s.fresh.run fuel es := by
  unfold handle
  rw [hparse]
  dsimp only
  rw [hdecode]

end

/-- A session passes a failure on in the place of a report exactly if it escapes from one of the
three phases, whatever the YAML library. -/
theorem handle_raises_iff (s : Session σ) (fuel : Nat) (p : Value)
    (hfinite : ∀ text, p.programText? = some text → s.yaml.load text ≠ .error .endless)
    (failure : Failure) :
    (s.handle fuel p).1 = .error (.failure failure) ↔ s.Escapes fuel p failure := by
  constructor
  · intro h
    cases hparse : parse s.yaml p with
    | error inner =>
      rw [handle_of_unread hparse] at h
      by_cases hvalue : inner.isOfValue = true
      · rw [if_pos hvalue, fail_returns] at h
        cases h
      · rw [if_neg hvalue] at h
        cases h
        obtain ⟨text, htext, hjson, hload, hvalue⟩ :=
          (parse_eq_error_iff hfinite failure).1 ⟨hparse, by simpa using hvalue⟩
        exact .reading htext hjson hload hvalue
    | ok tree =>
      cases hdecode : (programs tree).mapM Expr.ofValue with
      | error inner =>
        rcases programs_fail tree inner hdecode with ⟨flaw, rfl⟩ | ⟨fault, rfl, hunusable⟩
        · rw [handle_of_flawed hparse hdecode, fail_returns] at h
          cases h
        · rw [handle_of_undecodable hparse hdecode] at h
          cases h
          exact .decoding hparse hdecode hunusable
      | ok es =>
        rw [handle_of_decoded hparse hdecode] at h
        obtain ⟨other, machine, hrun, hunshown⟩ := (run_raises_iff fuel es failure s.fresh).1 h
        obtain ⟨fault, rfl⟩ := firstUnshown_isTypeFault hunshown
        exact .reporting hparse hdecode hrun hunshown
  · intro h
    cases h with
    | reading htext hjson hload hvalue =>
      obtain ⟨hparse, -⟩ :=
        (parse_eq_error_iff hfinite failure).2 ⟨_, htext, hjson, hload, hvalue⟩
      rw [handle_of_unread hparse, if_neg (by simp [hvalue])]
    | decoding hparse hdecode => rw [handle_of_undecodable hparse hdecode]
    | reporting hparse hdecode hrun hunshown =>
      rw [handle_of_decoded hparse hdecode, run_raises_iff]
      exact ⟨_, _, hrun, hunshown⟩

/-- A list without commas, the last text of which has an escape beyond all codes. -/
def farCode : String := "[\"a\" \"b\" \"\\UFFFFFFFF\"]"

/-- The escape is met while the bracket may still be the start of a key, so that nothing of the list
has been looked at. -/
theorem load_farCode : Yaml.Library.bundled.load farCode = .error .codeTooLarge := by
  have hscan : Yaml.Token.scan farCode = [.fault .codeTooLarge] := by decide +kernel
  have hroot : Yaml.Node.read farCode = .error .codeTooLarge := by
    rw [Yaml.Node.read, hscan]
    rfl
  show Yaml.read farCode = _
  rw [Yaml.read, hroot]
  rfl

theorem handle_raises_iff_farCode :
    (∀ text, (Value.str farCode).programText? = some text →
      Yaml.Library.bundled.load text ≠ .error .endless) ∧
    ((start .bundled none .empty #[] false ()).handle 1 (.str farCode)).1 =
      .error (.failure (.overflow "Python int too large to convert to C int")) := by
  have hfinite : ∀ text, (Value.str farCode).programText? = some text →
      Yaml.Library.bundled.load text ≠ .error .endless := by
    intro text htext
    obtain rfl : farCode = text := Option.some.inj htext
    rw [load_farCode]
    exact nofun
  have hjson : Document.isJson farCode = false := by
    decide +kernel
  exact ⟨hfinite, (handle_raises_iff _ 1 _ hfinite _).2 (.reading rfl hjson load_farCode rfl)⟩

-- A list in the place of a tag.
example : ((start .bundled none .empty #[] false ()).handle 1 (.map [(.str "type", .list [])])).1 =
    .error (.failure (.type (.unhashable "list"))) := rfl

-- A call fails whose argument is an answer of the host that no document can hold.
example :
    let answer : Handler Unit := fun _ _ _ => ⟨.ok (.tuple [.bytes [0]]), [], ()⟩
    let call := Expr.call (.procedure ["a"] (.variable "b")) [.variable "x"]
    ((start .bundled (some answer) .empty #[] false ()).handle 5
        (.list [.node (.effect "load" [] (some "x") none), .node call])).1 =
      .error (.failure (.type (.notWritable "bytes"))) := rfl

end Session

end TreeScript
