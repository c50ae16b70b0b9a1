import TreeScript.Proofs.Basic
import TreeScript.Yaml.Library
import TreeScript.Yaml.Reader
import TreeScript.Yaml.Writer

/-!
# The bundled YAML library

The reader and the writer of this project are a YAML library. That the reader gives plain data is
proved along the nodes of a text: a scalar is plain data, and a collection is put together from the
values of what it holds.
-/

namespace TreeScript.Yaml

theorem readBool_isData {text : String} {v : Value} (h : readBool text = .ok v) :
    v.isData = true := by
  unfold readBool at h
  dsimp only at h
  split at h
  · cases h
    rfl
  · split at h
    · cases h
      rfl
    · cases h

theorem readInt_isData {text : String} {v : Value} (h : readInt text = .ok v) :
    v.isData = true := by
  obtain ⟨⟨negative, body⟩, -, h⟩ := Result.bind_eq_ok.1 h
  obtain ⟨n, -, h⟩ := Result.bind_eq_ok.1 h
  cases h
  rfl

theorem readFloat_isData {text : String} {v : Value} (h : readFloat text = .ok v) :
    v.isData = true := by
  obtain ⟨⟨negative, body⟩, -, h⟩ := Result.bind_eq_ok.1 h
  dsimp only at h
  split at h
  · cases h
    rfl
  · split at h
    · cases h
      rfl
    · split at h
      · obtain ⟨digits, -, h⟩ := Result.bind_eq_ok.1 h
        cases h
        rfl
      · obtain ⟨x, -, h⟩ := Result.bind_eq_ok.1 h
        cases h
        rfl

theorem readTimestamp_isData {text : String} {v : Value} (h : readTimestamp text = .ok v) :
    v.isData = true := by
  unfold readTimestamp at h
  split at h
  next => cases h
  next stamp _ =>
    dsimp only at h
    split at h
    next =>
      split at h
      next =>
        cases h
        rfl
      next => cases h
    next =>
      -- a time is made in the same way with an offset and without one
      split at h <;>
      · obtain ⟨offset, -, h⟩ := Result.bind_eq_ok.1 h
        split at h
        next =>
          cases h
          rfl
        next => cases h

theorem readBinary_isData {text : String} {v : Value} (h : readBinary text = .ok v) :
    v.isData = true := by
  unfold readBinary at h
  split at h
  · split at h
    next =>
      cases h
      rfl
    next => cases h
  · cases h

theorem readScalar_isData {tag : Tag} {text : String} {v : Value}
    (h : readScalar tag text = .ok v) : v.isData = true := by
  cases tag with
  | null =>
    cases h
    rfl
  | bool => exact readBool_isData h
  | int => exact readInt_isData h
  | float => exact readFloat_isData h
  | timestamp => exact readTimestamp_isData h
  | str =>
    cases h
    rfl
  | binary => exact readBinary_isData h
  | _ => cases h

/-- By induction on the fuel: a collection is put together from the values of what it holds. -/
theorem valueOf_isData (fuel : Nat) {node : Node} {v : Value} (h : valueOf fuel node = .ok v) :
    v.isData = true := by
  induction fuel generalizing node v with
  | zero =>
    rw [valueOf] at h
    cases h
  | succ fuel ih =>
    have hentry : ∀ entry e, valueOf.entryOf fuel entry = .ok e →
        e.1.isData = true ∧ e.2.isData = true := by
      intro entry e h
      rw [valueOf.entryOf] at h
      obtain ⟨key, hkey, h⟩ := Result.bind_eq_ok.1 h
      obtain ⟨value, hvalue, h⟩ := Result.bind_eq_ok.1 h
      cases h
      exact ⟨ih hkey, ih hvalue⟩
    have hpair : ∀ node w, valueOf.pairOf fuel node = .ok w → w.isData = true := by
      intro node w h
      rw [valueOf.pairOf] at h
      obtain ⟨⟨key, value⟩, -, h⟩ := Result.bind_eq_ok.1 h
      obtain ⟨k, hk, h⟩ := Result.bind_eq_ok.1 h
      obtain ⟨v, hv, h⟩ := Result.bind_eq_ok.1 h
      cases h
      simp [Value.isData, areData, ih hk, ih hv]
    have hentries : ∀ {entries : List (Node × Node)} {values : List (Value × Value)},
        entries.mapM (valueOf.entryOf fuel) = .ok values →
          areDataEntries (Bindings.ofPairs values) = true :=
      fun h => Bindings.areData_ofPairs (areDataEntries_iff.2 (Result.forall_of_mapM hentry h))
    unfold valueOf at h
    split at h
    next =>
      obtain ⟨items, hitems, rfl⟩ := Result.map_eq_ok.1 h
      exact areData_iff.2 (Result.forall_of_mapM (fun _ _ => ih) hitems)
    next =>
      obtain ⟨items, hitems, rfl⟩ := Result.map_eq_ok.1 h
      exact areData_iff.2 (Result.forall_of_mapM hpair hitems)
    next =>
      obtain ⟨items, hitems, rfl⟩ := Result.map_eq_ok.1 h
      exact areData_iff.2 (Result.forall_of_mapM hpair hitems)
    next =>
      obtain ⟨flat, -, h⟩ := Result.bind_eq_ok.1 h
      obtain ⟨values, hvalues, h⟩ := Result.bind_eq_ok.1 h
      cases h
      exact hentries hvalues
    next =>
      obtain ⟨flat, -, h⟩ := Result.bind_eq_ok.1 h
      obtain ⟨values, hvalues, h⟩ := Result.bind_eq_ok.1 h
      cases h
      exact Bindings.areData_keys (hentries hvalues)
    next => cases h
    next =>
      obtain ⟨text, -, h⟩ := Result.bind_eq_ok.1 h
      exact readScalar_isData h

theorem read_isData {text : String} {v : Value} (h : read text = .ok v) : v.isData = true := by
  obtain ⟨root?, -, h⟩ := Result.bind_eq_ok.1 h
  cases root? with
  | none =>
    cases h
    rfl
  | some root =>
    dsimp only at h
    obtain ⟨collections, -, h⟩ := Result.bind_eq_ok.1 h
    obtain ⟨_, -, h⟩ := Result.bind_eq_ok.1 h
    exact valueOf_isData _ h

/-- The library of this project. -/
def Library.bundled : Library := ⟨read, write, read_isData⟩

end TreeScript.Yaml
