import Mathlib
import TreeScript.Files.Wildcard
import TreeScript.Proofs.PatternTexts
import TreeScript.Proofs.PatternWays

/-!
# Wildcards as search patterns

A wildcard pattern can be written as a search pattern: a star as `.*`, a question mark as `.`, and
every other character as itself, with a backslash before it where it would mean something else
(`expression`). That text is read as the nodes that are meant (`read_expression`), and to search for
it in a name is to ask whether the pieces are found in the name (`search_expression`).
-/

namespace TreeScript.Wildcard

open Pattern

/-- The characters that are written with a backslash. -/
def escaped : List Char := "()[]\x7b\x7d?*+-|^$\\.&~# \t\n\r\x0b\x0c".toList

/-- A piece in a search pattern. -/
def spelling : Wildcard → List Char
  | .any => ['.', '*']
  | .one => ['.']
  | .exactly c => if escaped.contains c then ['\\', c] else [c]

/-- The search pattern that pieces stand for. -/
def expression (pieces : List Wildcard) : String := String.ofList (pieces.flatMap spelling)

/-- The node that a piece stands for, and its width. -/
def sized : Wildcard → Node × Width
  | .any => (.repetition .greedy 0 none [.any false], Width.one.times 0 none)
  | .one => (.any false, .one)
  | .exactly c => (.literal c.toNat false .exact, .one)

theorem isAlphanum_escaped {c : Char} (h : c ∈ escaped) : c.isAlphanum = false := by
  have hall : (escaped.all fun c => !c.isAlphanum) = true := by decide +kernel
  simpa using List.all_eq_true.1 hall c h

theorem mem_escaped_of_mem_marks {c : Char} (h : c ∈ Read.marks) : c ∈ escaped := by
  have hall : (Read.marks.all escaped.contains) = true := by decide +kernel
  simpa using List.all_eq_true.1 hall c h

theorem spelling_exactly (c : Char) : spelling (.exactly c) = ['\\', c] ∧ c ∈ escaped ∨
    spelling (.exactly c) = [c] ∧ c ∉ escaped := by
  by_cases hc : c ∈ escaped <;> simp [spelling, hc]

/-- What is spelled does not start with a mark of a repetition, and it is no lone backslash. -/
theorem spelling_start (pieces : List Wildcard) :
    Read.tokenOf? (pieces.flatMap spelling) ∉ [some ['?'], some ['+']] ∧
      pieces.flatMap spelling ≠ ['\\'] := by
  have hmark : '?' ∈ escaped ∧ '+' ∈ escaped ∧ '\\' ∈ escaped := by decide +kernel
  match pieces with
  | [] => simp [Read.tokenOf?]
  | .any :: rest => simp [spelling, Read.tokenOf?]
  | .one :: rest => simp [spelling, Read.tokenOf?]
  | .exactly c :: rest =>
    rw [List.flatMap_cons]
    obtain ⟨hspelling, hc⟩ | ⟨hspelling, hc⟩ := spelling_exactly c
    · simp [hspelling, Read.tokenOf?]
    · have hne : ∀ mark ∈ escaped, c ≠ mark := fun mark hmark h => hc (h ▸ hmark)
      rw [hspelling, List.singleton_append, Read.tokenOf?_char (hne _ hmark.2.2)]
      simp [hne _ hmark.1, hne _ hmark.2.1, hne _ hmark.2.2]

theorem spells_piece (piece : Wildcard) (pieces : List Wildcard) (before : Read.Pieces) :
    Read.Spells (spelling piece) (pieces.flatMap spelling) before
      (.node (sized piece).1 (sized piece).2 :: before) := by
  obtain ⟨hnext, hlone⟩ := spelling_start pieces
  match piece with
  | .one => exact .dot hlone
  | .any => exact .repeated '*' ⟨0, none⟩ (by simp) (.dot (by simp)) rfl hnext hlone
  | .exactly c =>
    obtain ⟨hspelling, hc⟩ | ⟨hspelling, hc⟩ := spelling_exactly c
    · rw [hspelling]
      exact .escape (isAlphanum_escaped hc) hlone
    · rw [hspelling]
      exact .char (fun hmark => hc (mem_escaped_of_mem_marks hmark)) hlone

theorem spells_pieces (pieces : List Wildcard) (before : Read.Pieces) :
    ∃ after, Read.Spells (pieces.flatMap spelling) [] before after ∧
      after.sized = before.sized ++ pieces.map sized := by
  induction pieces generalizing before with
  | nil => exact ⟨before, .nil, (List.append_nil _).symm⟩
  | cons piece pieces ih =>
    obtain ⟨after, hspells, hsized⟩ := ih (.node (sized piece).1 (sized piece).2 :: before)
    have hpiece := spells_piece piece pieces before
    rw [← List.append_nil (pieces.flatMap spelling)] at hpiece
    refine ⟨after, hpiece.append hspells, hsized.trans ?_⟩
    simp [Read.Pieces.sized, Read.Piece.sized]

theorem refusalOf?_sized (pieces : List Wildcard) :
    Read.refusalOf? false (Sized.nodes (pieces.map sized)) = none := by
  induction pieces with
  | nil => rfl
  | cons piece pieces ih => cases piece <;> exact ih

theorem areUsable_sized (pieces : List Wildcard) :
    Read.areUsable true (Sized.nodes (pieces.map sized)) = true := by
  induction pieces with
  | nil => rfl
  | cons piece pieces ih => cases piece <;> exact ih

/-- The text of pieces is read as their nodes. -/
theorem read_expression (named? : String → Option Char) (pieces : List Wildcard) :
    Pattern.read named? [] (expression pieces) =
      .ok ⟨Sized.nodes (pieces.map sized), (Sized.width (pieces.map sized)).least, false⟩ := by
  obtain ⟨after, hspells, hsized⟩ := spells_pieces pieces []
  have hsome := hspells.some (by simp [Read.tokenOf?])
  rw [show after.sized = pieces.map sized from hsized] at hsome
  exact Pattern.read_eq named? hsome (spelling_start pieces).2 (refusalOf?_sized pieces)
    (areUsable_sized pieces)

/-! ## Searching -/

theorem mem_reach_iff {s rest : List Char} :
    rest ∈ reach s ↔ ∃ i ≤ (s.takeWhile (· != '\n')).length, s.drop i = rest := by
  induction s with
  | nil => simp [reach, eq_comm]
  | cons c s ih =>
    by_cases hc : c = '\n'
    · simp [reach, hc, eq_comm]
    · rw [reach, if_neg (by simpa using hc), List.mem_cons, ih,
        List.takeWhile_cons_of_pos (by simpa using hc), List.length_cons]
      constructor
      · rintro (rfl | ⟨i, hi, rfl⟩)
        · exact ⟨0, Nat.zero_le _, rfl⟩
        · exact ⟨i + 1, Nat.succ_le_succ hi, rfl⟩
      · rintro ⟨i, hi, rfl⟩
        cases i with
        | zero => exact .inl rfl
        | succ i => exact .inr ⟨i, Nat.le_of_succ_le_succ hi, rfl⟩

/-- Pieces match at a position exactly if their nodes do. -/
theorem matchesStart_iff_ways (pieces : List Wildcard) (x : List Char) {p : Nat}
    (hp : p ≤ x.length) : matchesStart pieces (x.drop p) = true ↔
      waysOf (glyphs x) (Sized.nodes (pieces.map sized)) p ≠ [] := by
  induction pieces generalizing p with
  | nil => simp [matchesStart, Sized.nodes, waysOf]
  | cons piece pieces ih =>
    have hsingle (hnode : (sized piece).1.isSingle = true)
        (hnil : matchesStart (piece :: pieces) [] = false)
        (hcons : ∀ c rest, matchesStart (piece :: pieces) (c :: rest) =
          ((sized piece).1.fits c && matchesStart pieces rest)) :
        matchesStart (piece :: pieces) (x.drop p) = true ↔
          waysOf (glyphs x) (Sized.nodes ((piece :: pieces).map sized)) p ≠ [] := by
      rw [List.map_cons, Sized.nodes, List.map_cons, waysOf_single hnode]
      cases hdrop : x.drop p with
      | nil => simp [hnil]
      | cons c rest =>
        have hlt : p < x.length := by
          by_contra hge
          rw [List.drop_eq_nil_of_le (by omega)] at hdrop
          cases hdrop
        have hrest : x.drop (p + 1) = rest := by rw [← List.drop_drop, hdrop]; rfl
        have ih := ih hlt
        rw [hrest] at ih
        rw [hcons, Bool.and_eq_true, ih, List.head?_cons, Option.any_some, Sized.nodes]
        cases (sized piece).1.fits c <;> simp
    cases piece with
    | one => exact hsingle rfl rfl fun c rest => by rw [matchesStart, sized, fits_any]
    | exactly d => exact hsingle rfl rfl fun c rest => by rw [matchesStart, sized, fits_literal]
    | any =>
      have hfits : (Node.any false).fits = (· != '\n') := funext fits_any
      have hways : waysOf (glyphs x) (Sized.nodes ((.any :: pieces).map sized)) p =
          (downFrom p ((x.drop p).takeWhile (· != '\n')).length).flatMap
            (waysOf (glyphs x) (Sized.nodes (pieces.map sized))) := by
        rw [List.map_cons, Sized.nodes, List.map_cons, waysOf, sized, Node.ways]
        simp only [singleOf?, List.isEmpty_nil, if_true, Node.single?, Node.isSingle,
          endsFrom_glyphs, hfits]
        rfl
      have hle : ((x.drop p).takeWhile (· != '\n')).length ≤ x.length - p := by
        rw [← List.length_drop]
        exact (List.takeWhile_prefix _).length_le
      rw [hways, Ne, List.flatMap_eq_nil_iff, matchesStart, List.any_eq_true]
      simp only [mem_reach_iff, mem_downFrom, not_forall, exists_prop]
      constructor
      · rintro ⟨_, ⟨i, hi, rfl⟩, hmatch⟩
        rw [List.drop_drop] at hmatch
        exact ⟨p + i, ⟨by omega, by omega⟩, (ih (by omega)).1 hmatch⟩
      · rintro ⟨q, ⟨hpq, hq⟩, hways⟩
        refine ⟨x.drop q, ⟨q - p, by omega, ?_⟩, (ih (by omega)).2 hways⟩
        rw [List.drop_drop, Nat.add_sub_cancel' hpq]

theorem isFoundIn_iff_exists (pieces : List Wildcard) (x : List Char) :
    isFoundIn pieces x = true ↔ ∃ p ≤ x.length, matchesStart pieces (x.drop p) = true := by
  induction x with
  | nil => simp [isFoundIn]
  | cons c x ih =>
    rw [isFoundIn, Bool.or_eq_true, ih]
    constructor
    · rintro (h | ⟨p, hp, h⟩)
      · exact ⟨0, Nat.zero_le _, h⟩
      · exact ⟨p + 1, Nat.succ_le_succ hp, h⟩
    · rintro ⟨_ | p, hp, h⟩
      · exact .inl h
      · exact .inr ⟨p, Nat.le_of_succ_le_succ hp, h⟩

theorem arePlain_sized (pieces : List Wildcard) :
    arePlain (Sized.nodes (pieces.map sized)) = true := by
  induction pieces with
  | nil => rfl
  | cons piece pieces ih => cases piece <;> exact ih

theorem framesOf_sized (pieces : List Wildcard) :
    framesOf (Sized.nodes (pieces.map sized)) ≤ 5 * pieces.length + 1 := by
  induction pieces with
  | nil => exact Nat.le_refl 1
  | cons piece pieces ih =>
    have hpiece : (sized piece).1.frames ≤ 5 := by
      cases piece with
      | any => exact Nat.le_refl 5
      | one => exact Nat.le_add_left 1 4
      | exactly c => exact Nat.le_add_left 1 4
    have hcons : framesOf (Sized.nodes ((piece :: pieces).map sized)) =
      (sized piece).1.frames + framesOf (Sized.nodes (pieces.map sized)) := rfl
    rw [hcons, List.length_cons]
    omega

theorem firstSet?_sized (pieces : List Wildcard) :
    firstSet? false (Sized.nodes (pieces.map sized)) = none := by
  cases pieces with
  | nil => rfl
  | cons piece pieces => cases piece <;> rfl

theorem least_width_le (entries : Sized) (h : ∀ e ∈ entries, e.2.least ≤ e.1.least) :
    entries.width.least ≤ leastOf entries.nodes := by
  have hfold : ∀ w : Width, (entries.foldl (fun w e => w.add e.2) w).least ≤
      w.least + leastOf entries.nodes := by
    induction entries with
    | nil => exact fun w => Nat.le_refl _
    | cons e rest ih =>
      intro w
      obtain ⟨he, hrest⟩ := List.forall_mem_cons.1 h
      have hadd : (w.add e.2).least ≤ w.least + e.2.least := Nat.min_le_left _ _
      have hfold := ih hrest (w.add e.2)
      have hcons : leastOf (Sized.nodes (e :: rest)) = e.1.least + leastOf (Sized.nodes rest) := rfl
      rw [List.foldl_cons, hcons]
      omega
  simpa [Sized.width, Width.zero] using hfold .zero

theorem least_sized (piece : Wildcard) : (sized piece).2.least = (sized piece).1.least := by
  cases piece with
  | any => simp [sized, Width.times, Node.least]
  | one => rfl
  | exactly c => rfl

theorem isPlain_sized {pieces : List Wildcard} (hpieces : pieces.length < 2 ^ 57) :
    IsPlain ⟨Sized.nodes (pieces.map sized), (Sized.width (pieces.map sized)).least, false⟩ where
  nodes := arePlain_sized pieces
  frames := by
    have hfuel : 5 * pieces.length + 1 < maxFuel := by
      have : maxFuel = 8 * 2 ^ 57 := rfl
      omega
    exact (framesOf_sized pieces).trans_lt hfuel
  first := firstSet?_sized pieces
  least := least_width_le _ fun e he => by
    obtain ⟨piece, -, rfl⟩ := List.mem_map.1 he
    exact (least_sized piece).le

/-- To search for the text of pieces in a name is to ask whether they are found in it. The bound is
that of the fuel of a search. -/
theorem search_expression (named? : String → Option Char) {pieces : List Wildcard}
    (hpieces : pieces.length < 2 ^ 57) (name : String) :
    (Pattern.read named? [] (expression pieces) >>= (search · name)) =
      .ok (selects pieces name) := by
  rw [read_expression]
  refine ((isPlain_sized hpieces).search name).trans ?_
  congr 1
  rw [Bool.eq_iff_iff, selects, isFoundIn_iff_exists, List.any_eq_true]
  simp only [List.mem_range, Nat.lt_succ_iff]
  refine exists_congr fun p => and_congr_right fun hp => ?_
  exact List.isSome_head?.trans (matchesStart_iff_ways pieces name.toList hp).symm

end TreeScript.Wildcard
