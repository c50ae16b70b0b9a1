import Mathlib
import TreeScript.Proofs.NumberAnswers
import TreeScript.Proofs.PatternTexts
import TreeScript.Proofs.PatternWays

/-!
# Numbers as search patterns

The numbers in an answer are what two search patterns match, one of them at the start of the answer
and the other one anywhere in it. Their texts are read as the nodes that are meant (`read_numeral`,
`read_simple`). What nodes match first from a position is what is read from there greedily
(`FirstWay`, with one rule for each kind of node), so the number at the start of a text is the match
of the first pattern (`numberPrefix?_eq_match`), and the first number in it is the first match of
the second one (`findNumber?_eq_search`).
-/

open scoped Computability

namespace TreeScript.Model

open Pattern

/-! ## First ways -/

/-- Nodes match first, from any position of a text, what is read from the rest of the text. -/
def FirstWay (nodes : List Node) (read? : List Char → Option (List Char)) : Prop :=
  ∀ (x : List Char) (p : Nat),
    (waysOf (glyphs x) nodes p).head? = (read? (x.drop p)).map fun w => p + w.length

section

variable {nodes others : List Node} {node one : Node}
  {read? other? : List Char → Option (List Char)}

theorem FirstWay.congr (h : FirstWay nodes read?) (heq : ∀ y, read? y = other? y) :
    FirstWay nodes other? := by
  intro x p
  rw [h x p, heq]

theorem head?_waysOf_cons (text : Array Glyph) (p : Nat) : (waysOf text (node :: nodes) p).head? =
    (node.ways text p).findSome? fun q => (waysOf text nodes q).head? := by
  rw [waysOf, List.head?_flatMap]

theorem singleOf?_singleton (hone : one.isSingle = true) : singleOf? [one] = some one :=
  Node.of_isSingle hone (fun _ _ _ => rfl) (fun _ => rfl) (fun _ _ _ _ => rfl)

theorem waysOf_singleton (text : Array Glyph) (p : Nat) :
    waysOf text [node] p = node.ways text p := by
  simp [waysOf]

/-- A node before nodes that always match is matched first as it is alone. -/
theorem FirstWay.cons {rest : List Char → List Char} (h : FirstWay [node] read?)
    (hrest : FirstWay nodes fun y => some (rest y)) :
    FirstWay (node :: nodes) fun y => (read? y).map fun w => w ++ rest (y.drop w.length) := by
  intro x p
  have hnode := h x p
  rw [waysOf_singleton] at hnode
  rw [head?_waysOf_cons]
  beta_reduce
  cases hread : read? (x.drop p) with
  | none =>
    rw [hread, Option.map_none, List.head?_eq_none_iff] at hnode
    rw [hnode]
    rfl
  | some w =>
    rw [hread, Option.map_some, List.head?_eq_some_iff] at hnode
    obtain ⟨qs, hways⟩ := hnode
    simp only [hways, List.findSome?_cons, hrest x (p + w.length), Option.map_some, List.drop_drop,
      List.length_append, Nat.add_assoc]

theorem head?_waysOf_next (h : FirstWay nodes read?) {x rest : List Char} {c : Char} {p : Nat}
    (hdrop : x.drop p = c :: rest) : (waysOf (glyphs x) nodes (p + 1)).head? =
      ((read? rest).map (c :: ·)).map fun w => p + w.length := by
  have hrest : x.drop (p + 1) = rest := by
    rw [← List.drop_drop, hdrop]
    rfl
  rw [h x (p + 1), hrest, Option.map_map]
  congr 1
  funext w
  simp [Nat.add_assoc, Nat.add_comm 1]

/-- A character that has to be there. -/
theorem FirstWay.single (hone : one.isSingle = true) (h : FirstWay nodes read?) :
    FirstWay (one :: nodes) fun
      | [] => none
      | c :: rest => if one.fits c then (read? rest).map (c :: ·) else none := by
  intro x p
  rw [waysOf_single hone]
  cases hdrop : x.drop p with
  | nil => rfl
  | cons c rest =>
    by_cases hfits : one.fits c = true
    · simp [hfits, head?_waysOf_next h hdrop]
    · simp [hfits]

/-- A character that can be left out, before nodes that do not match where it stands. -/
theorem FirstWay.optional (hone : one.isSingle = true) (h : FirstWay nodes read?)
    (hread : ∀ c rest, one.fits c = true → read? (c :: rest) = none) :
    FirstWay (.repetition .greedy 0 (some 1) [one] :: nodes) fun
      | [] => read? []
      | c :: rest => if one.fits c then (read? rest).map (c :: ·) else read? (c :: rest) := by
  intro x p
  have hhere := h x p
  rw [head?_waysOf_cons, Node.ways]
  simp only [singleOf?_singleton hone, Node.endsFrom, Option.getD_some, countFrom_glyphs,
    Nat.not_lt_zero, if_false]
  cases hdrop : x.drop p with
  | nil =>
    rw [hdrop] at hhere
    simpa [downFrom] using hhere
  | cons c rest =>
    rw [hdrop] at hhere
    by_cases hfits : one.fits c = true
    · rw [hread c rest hfits, Option.map_none] at hhere
      have hends : downFrom (p + 0) ((((c :: rest).take 1).takeWhile one.fits).length - 0) =
          [p + 1, p] := by
        simp [hfits, downFrom]
      rw [hends, List.findSome?_cons, List.findSome?_singleton, hhere, head?_waysOf_next h hdrop]
      simp only [hfits, if_true]
      cases read? rest <;> rfl
    · simpa [hfits, downFrom] using hhere

theorem head?_downFrom (low n : Nat) : (downFrom low n).head? = some (low + n) := by
  cases n <;> rfl

theorem firstWay_repetition (hone : one.isSingle = true) (least : Nat) :
    FirstWay [.repetition .greedy least none [one]] fun y =>
      if (y.takeWhile one.fits).length < least then none else some (y.takeWhile one.fits) := by
  intro x p
  rw [waysOf_singleton, Node.ways]
  simp only [singleOf?_singleton hone, endsFrom_glyphs]
  split
  · rfl
  · rw [head?_downFrom, Option.map_some]
    congr 1
    omega

/-- A character that can be left out is taken if it is there. -/
theorem firstWay_optional (hone : one.isSingle = true) :
    FirstWay [.repetition .greedy 0 (some 1) [one]] fun y =>
      some ((y.take 1).takeWhile one.fits) := by
  intro x p
  rw [waysOf_singleton, Node.ways]
  simp only [singleOf?_singleton hone, Node.endsFrom, Option.getD_some, countFrom_glyphs,
    Nat.not_lt_zero, if_false, head?_downFrom, Option.map_some]
  rfl

theorem FirstWay.branch (h : FirstWay nodes read?) (hother : FirstWay others other?) :
    FirstWay [.branch [nodes, others]] fun y => (read? y).or (other? y) := by
  intro x p
  rw [waysOf_singleton, Node.ways]
  simp only [waysOfSome, List.append_nil, List.head?_append, h x p, hother x p]
  cases read? (x.drop p) <;> rfl

/-- Nodes that can be left out. -/
theorem FirstWay.maybe (h : FirstWay nodes read?) (hnodes : singleOf? nodes = none) :
    FirstWay [.repetition .greedy 0 (some 1) nodes] fun y => some ((read? y).getD []) := by
  intro x p
  rw [waysOf_singleton, Node.ways]
  simp only [hnodes, List.head?_append, h x p]
  cases read? (x.drop p) <;> simp

/-- A word has to be there as a whole. -/
theorem firstWay_word (word : List Char) :
    FirstWay (word.map fun c => .literal c.toNat false .exact) fun y =>
      if word.isPrefixOf y then some word else none := by
  induction word with
  | nil =>
    intro x p
    simp [waysOf]
  | cons c word ih =>
    refine (FirstWay.single rfl ih).congr fun y => ?_
    cases y with
    | nil => rfl
    | cons d y =>
      by_cases hd : d = c
      · simp [fits_literal, hd, List.isPrefixOf]
      · simp [fits_literal, hd, List.isPrefixOf, Ne.symm hd]

end

/-! ## The patterns -/

/-- A digit. -/
def digitNode : Node := .set false [.category .digit false] .exact false

/-- A character. -/
def charNode (c : Char) : Node := .literal c.toNat false .exact

/-- One of some characters. -/
def oneOf (cs : List Char) : Node := .set false (cs.map fun c => .code c.toNat) .exact false

/-- A node that can be left out. -/
def optional (node : Node) : Node := .repetition .greedy 0 (some 1) [node]

/-- Digits, so many at least. -/
def digitNodes (least : Nat) : List Node := [.repetition .greedy least none [digitNode]]

/-- Digits with a point after or among them, or without one. -/
def plainNodes : List Node :=
  .repetition .greedy 1 none [digitNode] :: optional (charNode '.') :: digitNodes 0

/-- Digits with a point before them. -/
def pointedNodes : List Node := charNode '.' :: digitNodes 1

/-- A power of ten. -/
def powerNodes : List Node := oneOf ['e', 'E'] :: optional (oneOf ['+', '-']) :: digitNodes 1

/-- Digits with a point anywhere, or without one, and a power of ten, or none. -/
def scaledNodes : List Node :=
  [.branch [plainNodes, pointedNodes], .repetition .greedy 0 (some 1) powerNodes]

/-- The pattern of a number at the start of an answer. -/
def numeralPattern : Pattern :=
  ⟨[optional (oneOf ['+', '-']), .branch [infinityWord.map charNode, scaledNodes]], 1, false⟩

/-- The pattern of a number in the midst of an answer. -/
def simplePattern : Pattern := ⟨optional (charNode '-') :: plainNodes, 1, false⟩

theorem isPlain_numeralPattern : numeralPattern.IsPlain where
  nodes := by decide +kernel
  frames := by decide +kernel
  first := rfl
  least := by decide +kernel

theorem isPlain_simplePattern : simplePattern.IsPlain where
  nodes := by decide +kernel
  frames := by decide +kernel
  first := rfl
  least := by decide +kernel

/-! ## What the patterns match -/

theorem fits_digitNode (c : Char) : digitNode.fits c = Text.isDigit c := by
  simp [digitNode, Node.fits, Node.accepts, SetItem.contains, Category.contains, Glyph.under,
    Char.ofNat_toNat]

theorem fits_charNode (c d : Char) : (charNode d).fits c = (c == d) := fits_literal c d

theorem fits_oneOf (c : Char) (cs : List Char) : (oneOf cs).fits c = cs.contains c := by
  simp only [oneOf, Node.fits, Node.accepts, Bool.bne_false, List.any_map, Function.comp_def,
    SetItem.contains, code_ofChar, toNat_beq_toNat, List.contains_eq_any_beq]
  congr 1
  funext d
  exact BEq.comm

/-- The digits that a text starts with, if they are enough. -/
def digitsStart? (least : Nat) (y : List Char) : Option (List Char) :=
  if (spanDigits y).1.length < least then none else some (spanDigits y).1

theorem firstWay_digits (least : Nat) : FirstWay (digitNodes least) (digitsStart? least) := by
  have hfits : digitNode.fits = Text.isDigit := funext fits_digitNode
  refine (firstWay_repetition rfl least).congr fun y => ?_
  rw [digitsStart?, spanDigits, List.span_eq_takeWhile_dropWhile, hfits]

/-- A sign can be left out where what follows does not start with one. -/
theorem firstWay_sign {nodes : List Node} {read? : List Char → Option (List Char)}
    (h : FirstWay nodes read?) (hread : ∀ c ∈ ['+', '-'], ∀ y, read? (c :: y) = none) :
    FirstWay (optional (oneOf ['+', '-']) :: nodes) fun y =>
      (read? (spanSign y).2).map ((spanSign y).1 ++ ·) := by
  refine (h.optional rfl fun c y hc => hread c ?_ y).congr fun y => ?_
  · rwa [fits_oneOf, List.contains_iff_mem] at hc
  · cases y with
    | nil => simp [spanSign]
    | cons c y =>
      by_cases hc : c ∈ ['+', '-']
      · simp only [fits_oneOf, List.contains_iff_mem.2 hc, if_true]
        simp only [List.mem_cons, List.not_mem_nil, or_false] at hc
        obtain rfl | rfl := hc <;> rfl
      · have hspan : spanSign (c :: y) = ([], c :: y) :=
          spanSign_append (mem_sign.2 (.inl rfl)) (by rintro _ ⟨⟩; exact hc)
        simp [fits_oneOf, hspan, hc]

theorem digitsStart?_sign {c : Char} (hc : c ∈ ['+', '-']) (y : List Char) :
    digitsStart? 1 (c :: y) = none := by
  have hdigit : Text.isDigit c = false :=
    (Bool.or_eq_false_iff.1 (isDecimalChar_mark (List.mem_append_left ['e', 'E', 'I'] hc))).2
  simp [digitsStart?, spanDigits, List.span_eq_takeWhile_dropWhile, hdigit]

theorem firstWay_power :
    FirstWay [.repetition .greedy 0 (some 1) powerNodes] fun y => some (exponentPrefix y) := by
  have hsigned := firstWay_sign (firstWay_digits 1) fun c hc => digitsStart?_sign hc
  refine ((FirstWay.single rfl hsigned).maybe rfl).congr fun y => congrArg some ?_
  cases y with
  | nil => rfl
  | cons c y =>
    rw [exponentPrefix]
    have hmark : (oneOf ['e', 'E']).fits c = (c == 'e' || c == 'E') := by
      simp [fits_oneOf, Bool.beq_eq_decide_eq]
    simp only [hmark, digitsStart?, Nat.lt_one_iff, List.length_eq_zero_iff]
    split
    · by_cases hdigits : (spanDigits (spanSign y).2).1 = [] <;> simp [hdigits]
    · rfl

/-- A point at the start of a text, if there is one, and the digits after it. -/
def fractionStart (y : List Char) : List Char :=
  let point := (y.take 1).takeWhile (· == '.')
  point ++ (spanDigits (y.drop point.length)).1

theorem firstWay_fraction :
    FirstWay (optional (charNode '.') :: digitNodes 0) fun y => some (fractionStart y) := by
  have hfits : (charNode '.').fits = (· == '.') := funext fun c => fits_charNode c '.'
  have hpoint : FirstWay [optional (charNode '.')] fun y =>
      some ((y.take 1).takeWhile (· == '.')) :=
    (firstWay_optional rfl).congr fun y => by rw [hfits]
  have hdigits : FirstWay (digitNodes 0) fun y => some (spanDigits y).1 := firstWay_digits 0
  exact hpoint.cons hdigits

theorem fractionStart_point {fs y : List Char} (hfs : fs ∈ digit∗)
    (hy : ∀ c ∈ y.head?, Text.isDigit c = false) :
    fractionStart ('.' :: (fs ++ y)) = '.' :: fs := by
  simp [fractionStart, spanDigits_append hfs hy]

theorem fractionStart_eq_nil {y : List Char} (hy : ∀ c ∈ y.head?, isDecimalChar c = false) :
    fractionStart y = [] := by
  cases y with
  | nil => rfl
  | cons c y =>
    obtain ⟨hpoint, hdigit⟩ := Bool.or_eq_false_iff.1 (hy c rfl)
    simp [fractionStart, spanDigits, List.span_eq_takeWhile_dropWhile, hpoint, hdigit]

theorem digitsStart?_append {ds y : List Char} (hds : ds ∈ digit∗)
    (hy : ∀ c ∈ y.head?, Text.isDigit c = false) :
    digitsStart? 1 (ds ++ y) = if ds = [] then none else some ds := by
  rw [digitsStart?, spanDigits_append hds hy]
  simp

/-- The decimal that a text starts with, if the text starts with a digit. -/
def plainStart? (y : List Char) : Option (List Char) :=
  (digitsStart? 1 y).map fun ds => ds ++ fractionStart (y.drop ds.length)

theorem firstWay_plain : FirstWay plainNodes plainStart? :=
  (firstWay_digits 1).cons firstWay_fraction

theorem plainStart?_whole {ds y : List Char} (hds : ds ∈ digit∗)
    (hy : ∀ c ∈ y.head?, isDecimalChar c = false) :
    plainStart? (ds ++ y) = if ds = [] then none else some ds := by
  rw [plainStart?, digitsStart?_append hds fun c hc => (Bool.or_eq_false_iff.1 (hy c hc)).2]
  split
  · rfl
  · simp [fractionStart_eq_nil hy]

theorem plainStart?_pointed {ds fs y : List Char} (hds : ds ∈ digit∗) (hfs : fs ∈ digit∗)
    (hy : ∀ c ∈ y.head?, Text.isDigit c = false) :
    plainStart? (ds ++ '.' :: (fs ++ y)) = if ds = [] then none else some (ds ++ '.' :: fs) := by
  rw [plainStart?, digitsStart?_append hds (by rintro _ ⟨⟩; exact isDigit_point)]
  split
  · rfl
  · simp [fractionStart_point hfs hy]

/-- The decimal that a text starts with, if the text starts with a point. -/
def pointedStart? : List Char → Option (List Char)
  | '.' :: y => (digitsStart? 1 y).map ('.' :: ·)
  | _ => none

theorem pointedStart?_point (y : List Char) :
    pointedStart? ('.' :: y) = (digitsStart? 1 y).map ('.' :: ·) := rfl

theorem pointedStart?_cons {c : Char} (hc : c ≠ '.') (y : List Char) :
    pointedStart? (c :: y) = none := by
  simp [pointedStart?, hc]

theorem firstWay_pointed : FirstWay pointedNodes pointedStart? := by
  refine (FirstWay.single rfl (firstWay_digits 1)).congr fun y => ?_
  cases y with
  | nil => rfl
  | cons c y =>
    by_cases hc : c = '.'
    · simp [fits_charNode, hc, pointedStart?_point]
    · simp [fits_charNode, hc, pointedStart?_cons]

theorem firstWay_decimal : FirstWay [.branch [plainNodes, pointedNodes]] fun y =>
    (decimalPrefix? y).map Prod.fst := by
  refine (firstWay_plain.branch firstWay_pointed).congr fun y => ?_
  rcases exists_decimal y with ⟨ds, hds, r, rfl, hr⟩ | ⟨ds, hds, fs, hfs, r, rfl, hr⟩
  · rw [plainStart?_whole hds hr, decimalPrefix?_whole hds hr]
    by_cases hnil : ds = []
    · have hpointed : pointedStart? r = none := by
        cases r with
        | nil => rfl
        | cons c r => exact pointedStart?_cons (fun hc => by cases hc; cases hr '.' rfl) r
      simp [hnil, hpointed]
    · simp [hnil]
  · rw [plainStart?_pointed hds hfs hr, decimalPrefix?_pointed hds hfs hr]
    by_cases hnil : ds = []
    · simp only [hnil, List.nil_append, pointedStart?_point, digitsStart?_append hfs hr]
      by_cases hfs : fs = [] <;> simp [hfs]
    · simp [hnil]

theorem firstWay_scaled : FirstWay scaledNodes fun y =>
    (decimalPrefix? y).map fun found => found.1 ++ exponentPrefix found.2 := by
  refine (firstWay_decimal.cons firstWay_power).congr fun y => ?_
  cases h : decimalPrefix? y with
  | none => rfl
  | some found =>
    obtain ⟨rfl, -⟩ := decimalPrefix?_sound h
    simp

/-- No decimal starts with a sign. -/
theorem not_isDecimalChar_sign {c : Char} (hc : c ∈ ['+', '-']) (y : List Char) :
    ∀ d ∈ (c :: y).head?, isDecimalChar d = false := by
  rintro _ ⟨⟩
  exact isDecimalChar_mark (List.mem_append_left ['e', 'E', 'I'] hc)

theorem firstWay_numeral : FirstWay numeralPattern.nodes numeralStart? := by
  have hword : FirstWay (infinityWord.map charNode) _ := firstWay_word infinityWord
  refine (firstWay_sign (hword.branch firstWay_scaled) fun c hc y => ?_).congr fun y => ?_
  · have hdecimal : decimalPrefix? (c :: y) = none :=
      decimalPrefix?_whole (Language.nil_mem_kstar digit) (not_isDecimalChar_sign hc y)
    have hinfinity : infinityWord.isPrefixOf (c :: y) = false := by
      simp only [List.mem_cons, List.not_mem_nil, or_false] at hc
      obtain rfl | rfl := hc <;> rfl
    simp [hdecimal, hinfinity]
  · rw [numeralStart?]
    split
    · simp
    · simp [Function.comp_def]

theorem plainStart?_eq (y : List Char) : plainStart? y =
    if y.head?.any Text.isDigit then (decimalPrefix? y).map Prod.fst else none := by
  rcases exists_decimal y with ⟨ds, hds, r, rfl, hr⟩ | ⟨ds, hds, fs, hfs, r, rfl, hr⟩
  · rw [plainStart?_whole hds hr, decimalPrefix?_whole hds hr]
    cases ds with
    | nil => simp
    | cons c ds => simp [mem_digit_star.1 hds c List.mem_cons_self]
  · rw [plainStart?_pointed hds hfs hr, decimalPrefix?_pointed hds hfs hr]
    cases ds with
    | nil => simp [isDigit_point]
    | cons c ds => simp [mem_digit_star.1 hds c List.mem_cons_self]

theorem firstWay_simple : FirstWay simplePattern.nodes simpleStart? := by
  have hminus (y : List Char) : plainStart? ('-' :: y) = none :=
    plainStart?_whole (Language.nil_mem_kstar digit) (not_isDecimalChar_sign (by simp) y)
  refine (firstWay_plain.optional rfl fun c y hc => ?_).congr fun y => ?_
  · obtain rfl : c = '-' := by simpa [fits_charNode] using hc
    exact hminus y
  · have hstart : simpleStart? y = (plainStart? (spanMinus y).2).map ((spanMinus y).1 ++ ·) := by
      rw [simpleStart?, plainStart?_eq]
      split
      · rw [Option.map_map]
        rfl
      · rfl
    rw [hstart]
    cases y with
    | nil => rfl
    | cons c y =>
      by_cases hc : c = '-'
      · simp [fits_charNode, hc, spanMinus]
      · simp [fits_charNode, hc, spanMinus]

/-! ## The texts of the patterns -/

open Read

/-- Digits, as often as a mark says. -/
def digitsText (mark : Char) : List Char := ['\\', 'd', mark]

/-- A sign, or none. -/
def signText : List Char := ['[', '+', '-', ']', '?']

/-- Digits with a point after or among them, or without one. -/
def plainText : List Char := digitsText '+' ++ (['\\', '.', '?'] ++ digitsText '*')

/-- Digits with a point before them. -/
def pointedText : List Char := ['\\', '.'] ++ digitsText '+'

/-- A power of ten. -/
def powerText : List Char := ['[', 'e', 'E', ']'] ++ (signText ++ digitsText '+')

/-- Parentheses around a text that only keep it together. -/
def grouped (text : List Char) : List Char := '(' :: '?' :: ':' :: text ++ [')']

/-- Digits with a point anywhere, or without one, and a power of ten, or none. -/
def scaledText : List Char :=
  grouped (plainText ++ '|' :: pointedText) ++ (grouped powerText ++ ['?'])

section

variable {next : List Char} (hnext : tokenOf? next ∉ [some ['?'], some ['+']])
  (hlone : next ≠ ['\\']) (before : Pieces)

include hnext hlone

theorem spells_digits (mark : Char) (bounds : Bounds)
    (hmark : (mark, bounds) ∈ [('*', ⟨0, none⟩), ('+', ⟨1, none⟩)]) :
    Spells (digitsText mark) next before
      (.node (.repetition .greedy bounds.least bounds.most [digitNode])
        (Width.one.times bounds.least bounds.most) :: before) :=
  .repeated mark bounds (List.mem_cons_of_mem _ hmark)
    (.digit (by rintro ⟨⟩; simp at hmark)) rfl hnext hlone

theorem spells_sign : Spells signText next before
    (.node (optional (oneOf ['+', '-'])) (Width.one.times 0 (some 1)) :: before) := by
  have hset (s : Reader) (hahead : s.ahead = ['+', '-', ']'] ++ '?' :: next) :
      (characterSet []).run s = .ok (ofSet [] false [.code 43, .code 45], s.skip 3) :=
    characterSet_run (by simp [hahead, tokenOf?])
      (fun start => setItems_run_dash (by simp) hahead (by simp)) rfl (by simp)
  exact .repeated '?' ⟨0, some 1⟩ (by simp) (.set hset (by simp)) rfl hnext hlone

/-- The pieces of a decimal that starts with a digit, the last one first. -/
def plainPieces : Pieces :=
  [.node (.repetition .greedy 0 none [digitNode]) (Width.one.times 0 none),
    .node (optional (charNode '.')) (Width.one.times 0 (some 1)),
    .node (.repetition .greedy 1 none [digitNode]) (Width.one.times 1 none)]

theorem spells_plain : Spells plainText next before (plainPieces ++ before) := by
  have hpoint (before : Pieces) : Spells ['\\', '.', '?'] (digitsText '*' ++ next) before
      (.node (optional (charNode '.')) (Width.one.times 0 (some 1)) :: before) :=
    .repeated '?' ⟨0, some 1⟩ (by simp) (.escape (by decide) (by simp)) rfl
      (by simp [digitsText, tokenOf?]) (by simp [digitsText])
  have hwhole : Spells (digitsText '+') (['\\', '.', '?'] ++ digitsText '*' ++ next) before _ :=
    spells_digits (by simp [tokenOf?]) (by simp) before '+' ⟨1, none⟩ (by simp)
  exact hwhole.append ((hpoint _).append (spells_digits hnext hlone _ '*' ⟨0, none⟩ (by simp)))

/-- The pieces of a decimal that starts with a point, the last one first. -/
def pointedPieces : Pieces :=
  [.node (.repetition .greedy 1 none [digitNode]) (Width.one.times 1 none),
    .node (charNode '.') .one]

theorem spells_pointed : Spells pointedText next before (pointedPieces ++ before) := by
  have hpoint : Spells ['\\', '.'] (digitsText '+' ++ next) before
      (.node (charNode '.') .one :: before) := .escape (by decide) (by simp [digitsText])
  exact hpoint.append (spells_digits hnext hlone _ '+' ⟨1, none⟩ (by simp))

/-- The pieces of a power of ten, the last one first. -/
def powerPieces : Pieces :=
  [.node (.repetition .greedy 1 none [digitNode]) (Width.one.times 1 none),
    .node (optional (oneOf ['+', '-'])) (Width.one.times 0 (some 1)),
    .node (oneOf ['e', 'E']) .one]

theorem spells_power : Spells powerText next before (powerPieces ++ before) := by
  have hset (s : Reader) (hahead : s.ahead = 'e' :: 'E' :: ']' ::
      (signText ++ digitsText '+' ++ next)) :
      (characterSet []).run s = .ok (ofSet [] false [.code 101, .code 69], s.skip 3) := by
    refine characterSet_run (by simp [hahead, tokenOf?]) (fun start => ?_) rfl (by simp)
    have hsecond : (s.skip 1).ahead = 'E' :: ']' :: (signText ++ digitsText '+' ++ next) := by
      rw [Reader.ahead_skip, hahead]
      rfl
    have hclose : (s.skip 2).ahead = ']' :: (signText ++ digitsText '+' ++ next) := by
      rw [Reader.ahead_skip, hahead]
      rfl
    obtain ⟨n, hn⟩ : ∃ n, s.chars.size = n + 1 := by
      have hsize := s.length_ahead_le
      rw [hahead, List.length_cons] at hsize
      exact Nat.exists_eq_add_of_le' (Nat.le_of_add_left_le hsize)
    rw [hn, setItems_run_char (by simp) hahead (by simp) (by simp [tokenOf?]),
      setItems_run_char (by simp) hsecond (by simp) (by simp [tokenOf?]), Reader.skip_skip]
    exact setItems_run_close (by simp) hclose (by simp [signText])
  have hletter : Spells ['[', 'e', 'E', ']'] (signText ++ digitsText '+' ++ next) before
      (.node (oneOf ['e', 'E']) .one :: before) := .set hset (by simp)
  have hsign (before : Pieces) : Spells signText (digitsText '+' ++ next) before _ :=
    spells_sign (by simp [digitsText, tokenOf?]) (by simp [digitsText]) before
  exact hletter.append
    ((hsign _).append (spells_digits hnext hlone _ '+' ⟨1, none⟩ (by simp)))

end

theorem spells_word (word : List Char) (hword : ∀ c ∈ word, c ∉ marks) {next : List Char}
    (hlone : next ≠ ['\\']) (before : Pieces) : Spells word next before
      ((word.map fun c => .node (charNode c) .one).reverse ++ before) := by
  induction word generalizing before with
  | nil => exact .nil
  | cons c word ih =>
    obtain ⟨hc, hword⟩ := List.forall_mem_cons.1 hword
    have hrest : word ++ next ≠ ['\\'] := by
      cases word with
      | nil => exact hlone
      | cons d word =>
        intro heq
        obtain ⟨rfl, -⟩ := List.cons.inj heq
        exact hword '\\' List.mem_cons_self (by simp [marks])
    have hfirst : Spells [c] (word ++ next) before (.node (charNode c) .one :: before) :=
      .char hc hrest
    simpa using hfirst.append (ih hword _)

theorem choose_decimal : choose [] [plainPieces.sized, pointedPieces.sized] =
    [(.branch [plainNodes, pointedNodes], ⟨1, maxWidth⟩)] := rfl

/-- The pieces of a decimal with or without a power of ten, the last one first. -/
def scaledPieces : Pieces :=
  [.node (.repetition .greedy 0 (some 1) powerNodes) ⟨0, maxWidth⟩,
    .plain [(.branch [plainNodes, pointedNodes], ⟨1, maxWidth⟩)]]

theorem spells_scaled {next : List Char} (hnext : tokenOf? next ∉ [some ['?'], some ['+']])
    (hlone : next ≠ ['\\']) (before : Pieces) :
    Spells scaledText next before (scaledPieces ++ before) := by
  have hplain (rest : List Char) : Spells plainText ('|' :: rest) [] plainPieces :=
    spells_plain (by simp [tokenOf?]) (by simp) []
  have hpointed (rest : List Char) : Spells pointedText (')' :: rest) [] pointedPieces :=
    spells_pointed (by simp [tokenOf?]) (by simp) []
  have hpower (rest : List Char) : Spells powerText (')' :: rest) [] powerPieces :=
    spells_power (by simp [tokenOf?]) (by simp) []
  have hchoice (rest : List Char) : SpellsSome (plainText ++ '|' :: pointedText) (')' :: rest)
      [(.branch [plainNodes, pointedNodes], ⟨1, maxWidth⟩)] := by
    have hspells := (hplain _).or (hpointed rest) (by simp [pointedText]) (by simp [tokenOf?])
    rwa [choose_decimal] at hspells
  have hdecimal : Spells (grouped (plainText ++ '|' :: pointedText))
      (grouped powerText ++ ['?'] ++ next) before
      (.plain [(.branch [plainNodes, pointedNodes], ⟨1, maxWidth⟩)] :: before) :=
    .group (hchoice _) (by simp [grouped])
  have hoptional (before : Pieces) : Spells (grouped powerText) ('?' :: next) before
      (.plain powerPieces.sized :: before) :=
    .group ((hpower _).some (by simp [tokenOf?])) (by simp)
  exact hdecimal.append (.repeated '?' ⟨0, some 1⟩ (by simp) (hoptional _) rfl hnext hlone)

theorem infinityWord_eq : infinityWord = ['I', 'n', 'f', 'i', 'n', 'i', 't', 'y'] := rfl

theorem choose_number :
    choose [] [infinityWord.map fun c => (charNode c, .one), scaledPieces.sized] =
      [(.branch [infinityWord.map charNode, scaledNodes], ⟨1, maxWidth⟩)] := by
  have hwidth : (Sized.width (infinityWord.map fun c => (charNode c, .one))).or
      (Sized.width scaledPieces.sized) = ⟨1, maxWidth⟩ := by
    decide +kernel
  rw [← hwidth]
  exact choose_pair rfl rfl

/-- The pieces of a number at the start of an answer, the last one first. -/
def numeralPieces : Pieces :=
  [.plain [(.branch [infinityWord.map charNode, scaledNodes], ⟨1, maxWidth⟩)],
    .node (optional (oneOf ['+', '-'])) (Width.one.times 0 (some 1))]

theorem spells_number : SpellsSome (infinityWord ++ '|' :: scaledText) [')']
    [(.branch [infinityWord.map charNode, scaledNodes], ⟨1, maxWidth⟩)] := by
  have hword (rest : List Char) : Spells infinityWord ('|' :: rest) []
      (infinityWord.map fun c => .node (charNode c) .one).reverse := by
    have hspells := spells_word infinityWord (by simp [infinityWord_eq, marks])
      (show '|' :: rest ≠ ['\\'] by simp) []
    rwa [List.append_nil] at hspells
  have hscaled : Spells scaledText [')'] [] scaledPieces :=
    spells_scaled (by simp [tokenOf?]) (by simp) []
  have hchoice := (hword _).or hscaled (by simp [scaledText, grouped]) (by simp [tokenOf?])
  have hsized : Pieces.sized (infinityWord.map fun c => .node (charNode c) .one).reverse =
      infinityWord.map fun c => (charNode c, .one) := by
    rw [Pieces.sized, List.reverse_reverse, List.flatMap_map, List.map_eq_flatMap]
    rfl
  rwa [hsized, choose_number] at hchoice

/-- The text of the pattern of a number at the start of an answer. -/
def numeralExpression : String := "[+-]?(?:Infinity|(?:\\d+\\.?\\d*|\\.\\d+)(?:[eE][+-]?\\d+)?)"

theorem read_numeral (named? : String → Option Char) :
    Pattern.read named? [] numeralExpression = .ok numeralPattern := by
  have hsign : Spells signText (grouped (infinityWord ++ '|' :: scaledText) ++ []) []
      [.node (optional (oneOf ['+', '-'])) (Width.one.times 0 (some 1))] :=
    spells_sign (by simp [grouped, tokenOf?]) (by simp [grouped]) []
  have hnumeral : SpellsSome (signText ++ grouped (infinityWord ++ '|' :: scaledText)) []
      numeralPieces.sized :=
    (hsign.append (.group spells_number (by simp))).some (by simp [tokenOf?])
  have hrefusal : refusalOf? false numeralPieces.sized.nodes = none := by decide +kernel
  have husable : areUsable true numeralPieces.sized.nodes = true := by decide +kernel
  have hread := Pattern.read_eq named? hnumeral (by simp [signText]) hrefusal husable
  have htext : String.ofList (signText ++ grouped (infinityWord ++ '|' :: scaledText)) =
      numeralExpression := by decide +kernel
  rw [htext] at hread
  have hwidth : numeralPieces.sized.width.least = 1 := by decide +kernel
  rw [hwidth] at hread
  exact hread

/-- The text of the pattern of a number anywhere in an answer. -/
def simpleExpression : String := "-?\\d+\\.?\\d*"

theorem read_simple (named? : String → Option Char) :
    Pattern.read named? [] simpleExpression = .ok simplePattern := by
  have hminus : Spells ['-', '?'] (plainText ++ []) []
      [.node (optional (charNode '-')) (Width.one.times 0 (some 1))] :=
    .repeated '?' ⟨0, some 1⟩ (by simp) (.char (by simp [marks]) (by simp)) rfl
      (by simp [plainText, digitsText, tokenOf?]) (by simp [plainText, digitsText])
  have hsimple := (hminus.append (spells_plain (by simp [tokenOf?]) (by simp) _)).some
    (by simp [tokenOf?])
  exact Pattern.read_eq named? hsimple (by simp) rfl rfl

/-! ## Numbers by searching -/

/-- The number at the start of a text is what the pattern of such numbers matches there. -/
theorem numberPrefix?_eq_match (named? : String → Option Char) (x : List Char) :
    (Pattern.read named? [] numeralExpression).map (fun pattern =>
      (matchFrom? pattern (glyphs x) 0).bind fun stop => readBinary64? (x.take stop)) =
      .ok (numberPrefix? x) := by
  rw [read_numeral, Except.map, isPlain_numeralPattern.matchFrom? (Nat.zero_le _),
    firstWay_numeral x 0, numberPrefix?_eq, List.drop_zero]
  cases h : numeralStart? x with
  | none => rfl
  | some w =>
    obtain ⟨-, more, rfl⟩ := numeralStart?_sound h
    simp

theorem findNumber?_eq_findSome? (x : List Char) : findNumber? x =
    (List.range (x.length + 1)).findSome? fun p => simpleNumber? (x.drop p) := by
  induction x with
  | nil => rfl
  | cons c x ih =>
    have hcons : findNumber? (c :: x) = (simpleNumber? (c :: x)).or (findNumber? x) := by
      rw [findNumber?]
      cases simpleNumber? (c :: x) <;> rfl
    rw [List.length_cons, List.range_succ_eq_map, List.findSome?_cons, List.findSome?_map,
      List.drop_zero, hcons, ih]
    cases simpleNumber? (c :: x) <;> rfl

theorem findSome?_bind {α β γ : Type} {f : α → Option β} {g : β → Option γ}
    (h : ∀ a b, f a = some b → ∃ c, g b = some c) (l : List α) :
    (l.findSome? f).bind g = l.findSome? fun a => (f a).bind g := by
  induction l with
  | nil => rfl
  | cons a l ih =>
    rw [List.findSome?_cons, List.findSome?_cons]
    cases hf : f a with
    | none => exact ih
    | some b =>
      obtain ⟨c, hc⟩ := h a b hf
      simp [hc]

/-- The first number in a text is what the pattern of simple numbers matches first. -/
theorem findNumber?_eq_search (named? : String → Option Char) (x : List Char) :
    (Pattern.read named? [] simpleExpression).map (fun pattern =>
      (firstSpan? pattern (glyphs x)).bind fun span =>
        readBinary64? ((x.take span.2).drop span.1)) = .ok (findNumber? x) := by
  have hspan {p : Nat} {w : List Char} (h : simpleStart? (x.drop p) = some w) :
      (x.take (p + w.length)).drop p = w ∧ ∃ c, readBinary64? w = some c := by
    obtain ⟨hmem, more, hmore⟩ := simpleStart?_sound h
    refine ⟨?_, exists_readBinary64? (simple_numeral hmem)⟩
    rw [List.drop_take, Nat.add_sub_cancel_left, ← hmore, List.take_left]
  rw [read_simple, Except.map, isPlain_simplePattern.firstSpan?, findSome?_bind,
    findNumber?_eq_findSome?, size_glyphs]
  · congr 2
    funext p
    rw [firstWay_simple x p, simpleNumber?_eq]
    cases h : simpleStart? (x.drop p) with
    | none => rfl
    | some w => simp [(hspan h).1]
  · intro p span h
    rw [firstWay_simple x p] at h
    cases hstart : simpleStart? (x.drop p) with
    | none => simp [hstart] at h
    | some w =>
      obtain ⟨htext, hread⟩ := hspan hstart
      obtain rfl : (p, p + w.length) = span := by simpa [hstart] using h
      rwa [htext]

end TreeScript.Model
