import Mathlib
import TreeScript.Text.Casing

/-!
# Lower case

Which characters are their own lower case: the small letters of ASCII, and all that comes before its
capital letters.
-/

namespace TreeScript.Text

theorem lower_eq_self {c : Char}
    (h : ∀ run ∈ lowerRuns.toList, c.toNat < run.first ∨ run.last < c.toNat) : lower c = c := by
  have hnone : lowerRuns.find? (·.contains c.toNat) = none := by
    refine Array.find?_eq_none.2 fun run hrun hcontains => ?_
    have hapart := h run (Array.mem_toList_iff.2 hrun)
    simp only [CaseRun.contains, Bool.and_eq_true, decide_eq_true_eq] at hcontains
    omega
  rw [lower, mapCase, hnone]

/-- The runs of the lower case map start from the capital letters on, and none of them meets the
small letters of ASCII. -/
theorem lowerRuns_apart :
    (lowerRuns.toList.all fun run =>
      'A'.toNat ≤ run.first && (run.last < 'a'.toNat || 'z'.toNat < run.first)) = true := by
  decide +kernel

theorem lower_of_isLower {c : Char} (h : c.isLower = true) : lower c = c := by
  have hrange : 'a'.toNat ≤ c.toNat ∧ c.toNat ≤ 'z'.toNat := by
    simpa [Char.isLower, Char.le_def, UInt32.le_iff_toNat_le] using h
  refine lower_eq_self fun run hrun => ?_
  have hapart := List.all_eq_true.1 lowerRuns_apart run hrun
  simp only [Bool.and_eq_true, Bool.or_eq_true, decide_eq_true_eq] at hapart
  omega

theorem lowerSpelled_eq_self {c : Char} (hdot : c ≠ 'İ') (h : lower c = c) :
    lowerSpelled c = [c] := by
  simp [lowerSpelled, hdot, h]

theorem lowerSpelled_of_lt {c : Char} (h : c.toNat < 'A'.toNat) : lowerSpelled c = [c] := by
  refine lowerSpelled_eq_self ?_ (lower_eq_self fun run hrun => ?_)
  · rintro rfl
    exact absurd h (by decide)
  · have hapart := List.all_eq_true.1 lowerRuns_apart run hrun
    simp only [Bool.and_eq_true, decide_eq_true_eq] at hapart
    omega

theorem flatMap_lowerSpelled {cs : List Char} (h : ∀ c ∈ cs, lowerSpelled c = [c]) :
    cs.flatMap lowerSpelled = cs := by
  induction cs with
  | nil => rfl
  | cons c cs ih =>
    obtain ⟨hc, hcs⟩ := List.forall_mem_cons.1 h
    rw [List.flatMap_cons, hc, ih hcs]
    rfl

/-- A text of small letters is its own lower case. -/
theorem lowered_of_isLower {s : String} (h : s.toList.all Char.isLower = true) :
    lowered s = s := by
  have hspelled : ∀ c ∈ s.toList, lowerSpelled c = [c] := by
    intro c hc
    have hlower := List.all_eq_true.1 h c hc
    refine lowerSpelled_eq_self ?_ (lower_of_isLower hlower)
    rintro rfl
    exact absurd hlower (by decide)
  rw [lowered, flatMap_lowerSpelled hspelled, String.ofList_toList]

end TreeScript.Text
