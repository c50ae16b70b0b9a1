import Mathlib
import TreeScript.Proofs.Listings

/-!
# What wildcard patterns select

A pattern is matched by trying all that its stars can stand for, from every position of a name.
What this means is said here without the search: a name is selected exactly if some part of it can
be cut into pieces, one for each character of the pattern, so that every piece is what its character
`Denotes` (`selects_iff_cut`). Names without a line feed are meant, because the search stops there.

Since a star can stand for nothing, and what is before or after a part does not matter, stars at the
ends of a pattern change nothing.
-/

namespace TreeScript.Wildcard

/-- The texts that a character of a pattern stands for. -/
inductive Denotes : Char → List Char → Prop where
  /-- A star stands for any text. -/
  | star (piece : List Char) : Denotes '*' piece
  /-- A question mark stands for any character. -/
  | mark (c : Char) : Denotes '?' [c]
  /-- Every other character stands for itself. -/
  | itself {c : Char} : c ≠ '*' → c ≠ '?' → Denotes c [c]

theorem mem_reach {s rest : List Char} (hs : '\n' ∉ s) : rest ∈ reach s ↔ rest <:+ s := by
  induction s with
  | nil => simp [reach]
  | cons c s ih =>
    rw [List.mem_cons, not_or] at hs
    have hc : (c == '\n') = false := beq_false_of_ne (Ne.symm hs.1)
    rw [reach, hc, if_neg Bool.false_ne_true, List.mem_cons, List.suffix_cons_iff, ih hs.2]

/-- A text starts with a pattern if it starts with a piece for its first character and what is left
starts with the rest of the pattern. -/
theorem matchesStart_cons {c : Char} {pieces : List Wildcard} {s : List Char} (hs : '\n' ∉ s) :
    matchesStart (ofChar c :: pieces) s = true ↔
      ∃ piece rest, Denotes c piece ∧ s = piece ++ rest ∧ matchesStart pieces rest = true := by
  by_cases hstar : c = '*'
  · subst hstar
    rw [show ofChar '*' = .any from rfl, matchesStart, List.any_eq_true]
    constructor
    · rintro ⟨rest, hrest, hmatch⟩
      obtain ⟨piece, rfl⟩ := (mem_reach hs).1 hrest
      exact ⟨piece, rest, .star piece, rfl, hmatch⟩
    · rintro ⟨piece, rest, -, rfl, hmatch⟩
      exact ⟨rest, (mem_reach hs).2 (List.suffix_append piece rest), hmatch⟩
  by_cases hmark : c = '?'
  · subst hmark
    rw [show ofChar '?' = .one from rfl]
    constructor
    · intro h
      cases s with
      | nil => cases h
      | cons d rest =>
        rw [matchesStart, Bool.and_eq_true] at h
        exact ⟨[d], rest, .mark d, rfl, h.2⟩
    · rintro ⟨piece, rest, hpiece, rfl, hmatch⟩
      cases hpiece with
      | mark d =>
        have hd : d ≠ '\n' := fun hd => hs (by simp [hd])
        simp [matchesStart, hd, hmatch]
      | itself _ hne => exact absurd rfl hne
  · rw [show ofChar c = .exactly c by simp [ofChar, hstar, hmark]]
    constructor
    · intro h
      cases s with
      | nil => cases h
      | cons d rest =>
        rw [matchesStart, Bool.and_eq_true, beq_iff_eq] at h
        exact ⟨[c], rest, .itself hstar hmark, by rw [h.1]; rfl, h.2⟩
    · rintro ⟨piece, rest, hpiece, rfl, hmatch⟩
      cases hpiece with
      | star => exact absurd rfl hstar
      | mark => exact absurd rfl hmark
      | itself => simp [matchesStart, hmatch]

theorem matchesStart_iff {pattern s : List Char} (hs : '\n' ∉ s) :
    matchesStart (pattern.map ofChar) s = true ↔
      ∃ pieces, List.Forall₂ Denotes pattern pieces ∧ pieces.flatten <+: s := by
  induction pattern generalizing s with
  | nil => simp [matchesStart]
  | cons c pattern ih =>
    rw [List.map_cons, matchesStart_cons hs]
    constructor
    · rintro ⟨piece, rest, hpiece, rfl, hmatch⟩
      obtain ⟨pieces, hpieces, hstart⟩ := (ih fun h => hs (List.mem_append_right _ h)).1 hmatch
      exact ⟨piece :: pieces, .cons hpiece hpieces, (List.prefix_append_right_inj piece).2 hstart⟩
    · rintro ⟨_, hpieces, rest, rfl⟩
      cases hpieces with
      | @cons _ piece _ pieces hpiece hpieces =>
        rw [List.flatten_cons, List.append_assoc] at hs ⊢
        refine ⟨piece, pieces.flatten ++ rest, hpiece, rfl, ?_⟩
        exact (ih fun h => hs (List.mem_append_right _ h)).2 ⟨pieces, hpieces, rest, rfl⟩

theorem isFoundIn_iff {pattern s : List Char} (hs : '\n' ∉ s) :
    isFoundIn (pattern.map ofChar) s = true ↔
      ∃ pieces, List.Forall₂ Denotes pattern pieces ∧ pieces.flatten <:+: s := by
  induction s with
  | nil =>
    rw [isFoundIn, matchesStart_iff hs]
    simp only [List.prefix_nil, List.infix_nil]
  | cons c s ih =>
    have hrest : '\n' ∉ s := fun h => hs (List.mem_cons_of_mem c h)
    rw [isFoundIn, Bool.or_eq_true, matchesStart_iff hs, ih hrest, ← exists_or]
    simp only [← and_or_left, List.infix_cons_iff]

/-- Stars at the ends of a pattern can have empty pieces, and their pieces can be left out. -/
theorem exists_cut_stars {before pattern after s : List Char} (hbefore : ∀ c ∈ before, c = '*')
    (hafter : ∀ c ∈ after, c = '*') :
    (∃ pieces, List.Forall₂ Denotes (before ++ pattern ++ after) pieces ∧ pieces.flatten <:+: s) ↔
      ∃ pieces, List.Forall₂ Denotes pattern pieces ∧ pieces.flatten <:+: s := by
  constructor
  · rintro ⟨pieces, hpieces, hfound⟩
    have hmiddle := List.forall₂_take pattern.length (List.forall₂_drop before.length hpieces)
    rw [List.append_assoc, List.drop_left, List.take_left] at hmiddle
    have htake : (pieces.drop before.length).take pattern.length <+: pieces.drop before.length :=
      List.take_prefix _ _
    have hdrop : pieces.drop before.length <:+ pieces := List.drop_suffix _ _
    exact ⟨_, hmiddle, (htake.isInfix.trans hdrop.isInfix).flatten.trans hfound⟩
  · rintro ⟨pieces, hpieces, hfound⟩
    have hstars : ∀ stars : List Char, (∀ c ∈ stars, c = '*') →
        List.Forall₂ Denotes stars (stars.map fun _ => []) := by
      intro stars hstars
      rw [List.forall₂_map_right_iff, List.forall₂_same]
      exact fun c hc => hstars c hc ▸ .star []
    refine ⟨_, List.rel_append (List.rel_append (hstars _ hbefore) hpieces) (hstars _ hafter), ?_⟩
    simpa using hfound

/-- A pattern of any characters can be used. It selects a name without a line feed exactly if some
part of the name can be cut into pieces, one for each character of the pattern: any text for a star,
any character for a question mark, and for every other character the character itself. With a star
before it, after it, or both, it selects the same names. -/
theorem selects_iff_cut (pattern : String) {name : String} (hname : '\n' ∉ name.toList) :
    ofValue (.str pattern) = .ok (ofText pattern) ∧
    (selects (ofText pattern) name = true ↔
      ∃ pieces, List.Forall₂ Denotes pattern.toList pieces ∧ pieces.flatten <:+: name.toList) ∧
    ∀ before ∈ ["", "*"], ∀ after ∈ ["", "*"],
      selects (ofText (before ++ pattern ++ after)) name = selects (ofText pattern) name := by
  have hiff : ∀ p : String, selects (ofText p) name = true ↔
      ∃ pieces, List.Forall₂ Denotes p.toList pieces ∧ pieces.flatten <:+: name.toList :=
    fun p => isFoundIn_iff hname
  have hstars : ∀ stars ∈ ["", "*"], ∀ c ∈ stars.toList, c = '*' := by simp
  refine ⟨ofValue_str pattern, hiff pattern, fun before hbefore after hafter => ?_⟩
  rw [Bool.eq_iff_iff, hiff, hiff, String.toList_append, String.toList_append]
  exact exists_cut_stars (hstars before hbefore) (hstars after hafter)

/-- Brackets, a point and a plus stand for themselves only. -/
theorem selects_iff_cut_signs :
    '\n' ∉ "x(ab].c+".toList ∧
      (∃ pieces, List.Forall₂ Denotes "(*].?+".toList pieces ∧
        pieces.flatten <:+: "x(ab].c+".toList) ∧
      selects (ofText ("*" ++ "(*].?+" ++ "")) "x(ab].c+" = true ∧
      selects (ofText "[*.+") "x(ab].c+" = false := by
  have hname : '\n' ∉ "x(ab].c+".toList := by simp
  have hselects : selects (ofText "(*].?+") "x(ab].c+" = true := by decide
  obtain ⟨-, hiff, hstars⟩ := selects_iff_cut "(*].?+" hname
  exact ⟨hname, hiff.1 hselects, (hstars "*" (by simp) "" (by simp)).trans hselects, by decide⟩

end TreeScript.Wildcard
