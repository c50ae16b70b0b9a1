import Mathlib
import TreeScript.Proofs.RenamedValues
import TreeScript.Yaml.Library

/-!
# Documents hold no closures

A closure comes about in a run and nowhere else: the value that a text has, as JSON or as YAML, is
plain data, which is the same under every renaming.
-/

namespace TreeScript

/-- There is no closure in it. -/
def ClosureFree {α : Type} [Renames α] (x : α) : Prop := ∀ g, rename g x = x

mutual

theorem Value.closureFree_of_isData : ∀ {v : Value}, v.isData = true → ClosureFree v
  | .list items, h => fun g => by rw [rename_list, closureFree_of_areData h g]
  | .tuple items, h => fun g => by rw [rename_tuple, closureFree_of_areData h g]
  | .set items, h => fun g => by rw [rename_set, closureFree_of_areData h g]
  | .map entries, h => fun g => by rw [rename_map, closureFree_of_areDataEntries h g]
  | .null, _ | .bool _, _ | .int _, _ | .float _, _ | .str _, _ | .bytes _, _ | .date _, _
  | .datetime _, _ => fun _ => rfl

theorem closureFree_of_areData : ∀ {vs : List Value}, areData vs = true → ClosureFree vs
  | [], _ => fun _ => rfl
  | v :: rest, h => fun g => by
    obtain ⟨hv, hrest⟩ := Bool.and_eq_true_iff.1 h
    rw [rename_cons, Value.closureFree_of_isData hv g, closureFree_of_areData hrest g]

theorem closureFree_of_areDataEntries :
    ∀ {es : List (Value × Value)}, areDataEntries es = true → ClosureFree es
  | [], _ => fun _ => rfl
  | (k, v) :: rest, h => fun g => by
    obtain ⟨hentry, hrest⟩ := Bool.and_eq_true_iff.1 h
    obtain ⟨hk, hv⟩ := Bool.and_eq_true_iff.1 hentry
    rw [rename_cons, rename_pair, Value.closureFree_of_isData hk g,
      Value.closureFree_of_isData hv g, closureFree_of_areDataEntries hrest g]

end

/-! ## JSON -/

namespace Json

theorem readUnsigned?_isData {negative : Bool} {cs rest : List Char} {v : Value}
    (h : readUnsigned? negative cs = some (v, rest)) : v.isData = true := by
  obtain ⟨⟨whole, after⟩, -, h⟩ := Option.bind_eq_some_iff.1 h
  dsimp only at h
  split at h <;> cases h <;> rfl

theorem readWord?_isData {cs rest : List Char} {v : Value}
    (h : readWord? cs = some (v, rest)) : v.isData = true := by
  unfold readWord? at h
  split at h
  case h_7 | h_8 => exact readUnsigned?_isData h
  all_goals
    cases h
    rfl

/-- By induction on the fuel, for the three readers that call each other. -/
theorem readers_isData (fuel : Nat) :
    (∀ cs v rest, readValue? fuel cs = some (v, rest) → v.isData = true) ∧
    (∀ cs vs rest, readItems? fuel cs = some (vs, rest) → areData vs = true) ∧
    (∀ cs es rest, readEntries? fuel cs = some (es, rest) → areDataEntries es = true) := by
  induction fuel with
  | zero =>
    refine ⟨?_, ?_, ?_⟩
    · intro cs v rest h
      rw [readValue?] at h
      cases h
    · intro cs vs rest h
      rw [readItems?] at h
      cases h
    · intro cs es rest h
      rw [readEntries?] at h
      cases h
  | succ fuel ih =>
    obtain ⟨hvalue, hitems, hentries⟩ := ih
    refine ⟨?_, ?_, ?_⟩
    · intro cs v rest h
      unfold readValue? at h
      split at h
      next =>
        obtain ⟨⟨s, after⟩, -, h⟩ := Option.bind_eq_some_iff.1 h
        cases h
        rfl
      -- an empty list, and an empty map below, is told apart before any element is read
      next =>
        split at h
        next =>
          cases h
          rfl
        next =>
          obtain ⟨⟨items, after⟩, hread, h⟩ := Option.bind_eq_some_iff.1 h
          cases h
          exact hitems _ _ _ hread
      next =>
        split at h
        next =>
          cases h
          rfl
        next =>
          obtain ⟨⟨entries, after⟩, hread, h⟩ := Option.bind_eq_some_iff.1 h
          cases h
          exact Bindings.areData_ofPairs (hentries _ _ _ hread)
      next => exact readWord?_isData h
    · intro cs vs rest h
      rw [readItems?] at h
      obtain ⟨⟨v, after⟩, hread, h⟩ := Option.bind_eq_some_iff.1 h
      have hv := hvalue _ _ _ hread
      dsimp only at h
      split at h
      next =>
        cases h
        simp [areData, hv]
      next =>
        obtain ⟨⟨others, after⟩, hothers, h⟩ := Option.bind_eq_some_iff.1 h
        cases h
        simp [areData, hv, hitems _ _ _ hothers]
      next => cases h
    · intro cs es rest h
      unfold readEntries? at h
      split at h
      next =>
        obtain ⟨⟨key, after⟩, -, h⟩ := Option.bind_eq_some_iff.1 h
        dsimp only at h
        split at h
        next =>
          obtain ⟨⟨v, after⟩, hread, h⟩ := Option.bind_eq_some_iff.1 h
          have hv := hvalue _ _ _ hread
          dsimp only at h
          split at h
          next =>
            cases h
            simp [areDataEntries, Value.isData, hv]
          next =>
            obtain ⟨⟨others, after⟩, hothers, h⟩ := Option.bind_eq_some_iff.1 h
            cases h
            simp [areDataEntries, Value.isData, hv, hentries _ _ _ hothers]
          next => cases h
        next => cases h
      next => cases h

theorem read?_isData {text : String} {v : Value} (h : read? text = some v) :
    v.isData = true := by
  obtain ⟨⟨w, rest⟩, hread, h⟩ := Option.bind_eq_some_iff.1 h
  dsimp only at h
  split at h
  · cases h
    exact (readers_isData _).1 _ _ _ hread
  · cases h

end Json

theorem Document.read_closureFree {yaml : Yaml.Library} {text : String} {v : Value}
    (h : Document.read yaml text = .ok v) : ClosureFree v := by
  refine Value.closureFree_of_isData ?_
  unfold Document.read Document.readAs at h
  split at h
  next w hw =>
    cases h
    split at hw
    · exact Json.read?_isData hw
    · cases hw
  next =>
    split at h
    next w hw =>
      cases h
      exact yaml.load_isData hw
    next => cases h
    next => cases h

end TreeScript
