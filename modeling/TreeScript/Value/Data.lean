import TreeScript.Value.Bindings

/-!
# Plain data

Documents hold plain data: values that no run is needed for, and that have the same meaning in every
run. Closures, programs and host objects are not among them.
-/

namespace TreeScript

mutual

/-- Whether a value is plain data. -/
def Value.isData : Value → Bool
  | .list items => areData items
  | .tuple items => areData items
  | .set items => areData items
  | .map entries => areDataEntries entries
  | .undefined | .closure .. | .node _ | .literal _ | .env _ | .object _ => false
  | _ => true
termination_by structural v => v

/-- Whether all values of a list are plain data. -/
def areData : List Value → Bool
  | [] => true
  | v :: rest => Value.isData v && areData rest
termination_by structural vs => vs

/-- Whether all keys and values of a map are plain data. -/
def areDataEntries : List (Value × Value) → Bool
  | [] => true
  | (k, v) :: rest => Value.isData k && Value.isData v && areDataEntries rest
termination_by structural es => es

end

theorem areData_iff {vs : List Value} : areData vs = true ↔ ∀ v ∈ vs, v.isData = true := by
  induction vs with
  | nil => simp [areData]
  | cons v rest ih => simp [areData, ih]

theorem areDataEntries_iff {es : List (Value × Value)} :
    areDataEntries es = true ↔ ∀ e ∈ es, e.1.isData = true ∧ e.2.isData = true := by
  induction es with
  | nil => simp [areDataEntries]
  | cons e rest ih => simp [areDataEntries, ih]

namespace Bindings

theorem areData_put {bs : Bindings} {key value : Value} (hbs : areDataEntries bs = true)
    (hkey : key.isData = true) (hvalue : value.isData = true) :
    areDataEntries (bs.put key value) = true := by
  induction bs with
  | nil => simp [put, areDataEntries, hkey, hvalue]
  | cons b rest ih =>
    obtain ⟨k, v⟩ := b
    simp only [areDataEntries, Bool.and_eq_true] at hbs
    rw [put]
    split
    · simp [areDataEntries, hbs, hvalue]
    · simp [areDataEntries, hbs, ih hbs.2]

theorem areData_putAll {bs more : Bindings} (hbs : areDataEntries bs = true)
    (hmore : areDataEntries more = true) : areDataEntries (bs.putAll more) = true := by
  induction more generalizing bs with
  | nil => exact hbs
  | cons e rest ih =>
    obtain ⟨⟨hkey, hvalue⟩, hrest⟩ : (e.1.isData = true ∧ e.2.isData = true) ∧
        areDataEntries rest = true := by
      simpa [areDataEntries] using hmore
    exact ih (areData_put hbs hkey hvalue) hrest

theorem areData_ofPairs {pairs : List (Value × Value)} (h : areDataEntries pairs = true) :
    areDataEntries (ofPairs pairs) = true :=
  areData_putAll rfl h

theorem areData_keys {bs : Bindings} (h : areDataEntries bs = true) : areData bs.keys = true := by
  rw [areDataEntries_iff] at h
  rw [areData_iff]
  intro key hkey
  obtain ⟨e, he, rfl⟩ := List.mem_map.1 hkey
  exact (h e he).1

end Bindings

end TreeScript
