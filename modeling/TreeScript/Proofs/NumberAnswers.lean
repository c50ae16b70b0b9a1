import Mathlib
import TreeScript.Model.Answer
import TreeScript.Proofs.YamlWords

/-!
# Numbers in answers

The number in an answer is the one that the answer starts with or, if it starts with none, the first
one in it. Which texts count as numbers at the start, and which in the midst of words, is given by
two languages, `numeral` and `simple`. Each is read greedily, and what is read is the longest start
of the text that is in the language (`longestStart_of_greedy`): what can go on with a decimal never
starts a power of ten.

In the midst of words a number has no power of ten and does not start with a point, so that words
before a number can change it (`number_after_words`).
-/

open scoped Computability

namespace TreeScript.Model

/-! ## Digits -/

theorem isDigit_iff_toNat {c : Char} : c.isDigit = true ↔ 48 ≤ c.toNat ∧ c.toNat ≤ 57 := by
  simp [Char.isDigit, UInt32.le_iff_toNat_le, ← Char.toNat_val]

/-- A digit is no blank, and it is one of the ten of ASCII or above ASCII. -/
theorem isDigit_spec {c : Char} (h : Text.isDigit c = true) :
    Text.isBlank c = false ∧ (c.isDigit = true ∨ 0x7f < c.toNat) := by
  have htable : (Text.digitZeros.toList.all fun z => (z == 48 || decide (0x7f < z)) &&
      Text.blankRanges.toList.all fun r => decide (z + 10 ≤ r.1) || decide (r.2 < z)) = true := by
    decide +kernel
  rw [Text.isDigit, Text.digitValue?, Option.isSome_map] at h
  obtain ⟨z, hz⟩ := Option.isSome_iff_exists.1 h
  have hrange := Array.find?_some hz
  have hzero := List.all_eq_true.1 htable z (Array.mem_toList_iff.2 (Array.mem_of_find?_eq_some hz))
  simp only [Bool.and_eq_true, Bool.or_eq_true, beq_iff_eq, decide_eq_true_eq, List.all_eq_true]
    at hrange hzero
  constructor
  · rw [Text.isBlank, Text.inRanges, Bool.eq_false_iff, ne_eq, Array.any_eq_true']
    rintro ⟨r, hr, hwithin⟩
    have hapart := hzero.2 r (Array.mem_toList_iff.2 hr)
    simp only [Bool.and_eq_true, decide_eq_true_eq] at hwithin
    omega
  · rcases hzero.1 with rfl | habove
    · exact .inl (isDigit_iff_toNat.2 ⟨hrange.1, Nat.le_of_lt_succ hrange.2⟩)
    · exact .inr (Nat.lt_of_lt_of_le habove hrange.1)

theorem isDigit_ascii {c : Char} (h : c.toNat ≤ 0x7f) : Text.isDigit c = c.isDigit := by
  refine Bool.eq_iff_iff.2 ⟨fun hc => ?_, fun hc => ?_⟩
  · exact (isDigit_spec hc).2.resolve_right (Nat.not_lt.2 h)
  · rw [Text.isDigit, digitValue?_digit hc]
    rfl

theorem isDigit_point : Text.isDigit '.' = false := isDigit_ascii (by decide)

/-! ## Languages of numbers -/

/-- A digit of any script. -/
def digit : Language Char := {w | ∃ c, Text.isDigit c = true ∧ w = [c]}

/-- Some digits, at least one. -/
def digits : Language Char := digit * digit∗

/-- A sign, or none. -/
def sign : Language Char := 1 + {['+']} + {['-']}

/-- Digits with a point after or among them, or without one. -/
def plain : Language Char := digits * (1 + {['.']}) * digit∗

/-- Digits with a point anywhere, or without one. -/
def decimal : Language Char := plain + {['.']} * digits

/-- A power of ten, or none. -/
def power : Language Char := 1 + ({['e']} + {['E']}) * sign * digits

/-- The numbers at the start of an answer. -/
def numeral : Language Char := sign * ({infinityWord} + decimal * power)

/-- The numbers in the midst of an answer. -/
def simple : Language Char := (1 + {['-']}) * plain

theorem mem_digit_star {w : List Char} : w ∈ digit∗ ↔ ∀ c ∈ w, Text.isDigit c = true := by
  rw [Language.mem_kstar]
  constructor
  · rintro ⟨parts, rfl, hparts⟩ c hc
    obtain ⟨part, hpart, hc⟩ := List.mem_flatten.1 hc
    obtain ⟨d, hd, rfl⟩ := hparts part hpart
    rwa [List.mem_singleton.1 hc]
  · intro h
    refine ⟨w.map fun c => [c], by simp [← List.flatMap_def], fun part hpart => ?_⟩
    obtain ⟨c, hc, rfl⟩ := List.mem_map.1 hpart
    exact ⟨c, h c hc, rfl⟩

theorem mem_digits {w : List Char} : w ∈ digits ↔ w ∈ digit∗ ∧ w ≠ [] := by
  rw [digits, Language.mem_mul]
  constructor
  · rintro ⟨_, ⟨c, hc, rfl⟩, cs, hcs, rfl⟩
    exact ⟨mem_digit_star.2 (List.forall_mem_cons.2 ⟨hc, mem_digit_star.1 hcs⟩),
      List.cons_ne_nil c cs⟩
  · rintro ⟨hw, hne⟩
    obtain ⟨c, cs, rfl⟩ := List.exists_cons_of_ne_nil hne
    obtain ⟨hc, hcs⟩ := List.forall_mem_cons.1 (mem_digit_star.1 hw)
    exact ⟨[c], ⟨c, hc, rfl⟩, cs, mem_digit_star.2 hcs, rfl⟩

theorem star_append {v w : List Char} (hv : v ∈ digit∗) (hw : w ∈ digit∗) : v ++ w ∈ digit∗ :=
  mem_digit_star.2 (List.forall_mem_append.2 ⟨mem_digit_star.1 hv, mem_digit_star.1 hw⟩)

theorem mem_sign {w : List Char} : w ∈ sign ↔ w = [] ∨ w = ['+'] ∨ w = ['-'] :=
  or_assoc

theorem mem_plain {w : List Char} :
    w ∈ plain ↔ ∃ ds ∈ digits, w = ds ∨ ∃ fs ∈ digit∗, w = ds ++ '.' :: fs := by
  simp only [plain, Language.mem_mul, Language.mem_add, Language.mem_one]
  constructor
  · rintro ⟨_, ⟨ds, hds, p, rfl | hp, rfl⟩, fs, hfs, rfl⟩
    · obtain ⟨hstar, hne⟩ := mem_digits.1 hds
      exact ⟨_, mem_digits.2 ⟨star_append hstar hfs, by simp [hne]⟩, .inl (by simp)⟩
    · cases hp
      exact ⟨ds, hds, .inr ⟨fs, hfs, by simp⟩⟩
  · rintro ⟨ds, hds, rfl | ⟨fs, hfs, rfl⟩⟩
    · exact ⟨w, ⟨w, hds, [], .inl rfl, by simp⟩, [], Language.nil_mem_kstar _, by simp⟩
    · exact ⟨ds ++ ['.'], ⟨ds, hds, ['.'], .inr rfl, rfl⟩, fs, hfs, by simp⟩

theorem mem_decimal {w : List Char} : w ∈ decimal ↔ w ∈ digits ∨
    ∃ ds ∈ digit∗, ∃ fs ∈ digit∗, (ds = [] → fs ≠ []) ∧ w = ds ++ '.' :: fs := by
  simp only [decimal, Language.mem_add, Language.mem_mul, mem_plain]
  constructor
  · rintro (⟨ds, hds, rfl | ⟨fs, hfs, rfl⟩⟩ | ⟨_, rfl, fs, hfs, rfl⟩)
    · exact .inl hds
    · obtain ⟨hstar, hne⟩ := mem_digits.1 hds
      exact .inr ⟨ds, hstar, fs, hfs, fun h => absurd h hne, rfl⟩
    · obtain ⟨hstar, hne⟩ := mem_digits.1 hfs
      exact .inr ⟨[], Language.nil_mem_kstar _, fs, hstar, fun _ => hne, rfl⟩
  · rintro (hw | ⟨ds, hds, fs, hfs, hne, rfl⟩)
    · exact .inl ⟨w, hw, .inl rfl⟩
    · by_cases hnil : ds = []
      · exact .inr ⟨['.'], rfl, fs, mem_digits.2 ⟨hfs, hne hnil⟩, by simp [hnil]⟩
      · exact .inl ⟨ds, mem_digits.2 ⟨hds, hnil⟩, .inr ⟨fs, hfs, rfl⟩⟩

theorem digits_decimal {w : List Char} (h : w ∈ digits) : w ∈ decimal := mem_decimal.2 (.inl h)

theorem mem_power {w : List Char} :
    w ∈ power ↔ w = [] ∨ ∃ mark s ds, (mark = 'e' ∨ mark = 'E') ∧ s ∈ sign ∧ ds ∈ digits ∧
      w = mark :: (s ++ ds) := by
  simp only [power, Language.mem_add, Language.mem_mul, Language.mem_one]
  refine or_congr_right ⟨?_, ?_⟩
  · rintro ⟨_, ⟨m, rfl | rfl, s, hs, rfl⟩, ds, hds, rfl⟩
    · exact ⟨'e', s, ds, .inl rfl, hs, hds, rfl⟩
    · exact ⟨'E', s, ds, .inr rfl, hs, hds, rfl⟩
  · rintro ⟨_, s, ds, rfl | rfl, hs, hds, rfl⟩
    · exact ⟨'e' :: s, ⟨['e'], .inl rfl, s, hs, rfl⟩, ds, hds, rfl⟩
    · exact ⟨'E' :: s, ⟨['E'], .inr rfl, s, hs, rfl⟩, ds, hds, rfl⟩

theorem mem_numeral_iff {w : List Char} : w ∈ numeral ↔ ∃ s ∈ sign, w = s ++ infinityWord ∨
    ∃ d ∈ decimal, ∃ e ∈ power, w = s ++ (d ++ e) := by
  simp only [numeral, Language.mem_mul, Language.mem_add]
  constructor
  · rintro ⟨s, hs, _, rfl | ⟨d, hd, e, he, rfl⟩, rfl⟩
    · exact ⟨s, hs, .inl rfl⟩
    · exact ⟨s, hs, .inr ⟨d, hd, e, he, rfl⟩⟩
  · rintro ⟨s, hs, rfl | ⟨d, hd, e, he, rfl⟩⟩
    · exact ⟨s, hs, _, .inl rfl, rfl⟩
    · exact ⟨s, hs, _, .inr ⟨d, hd, e, he, rfl⟩, rfl⟩

/-! ## Reading greedily

What follows a number matters only by its first character. -/

/-- Whether a character is a point or a digit, as those that decimals are made of. -/
def isDecimalChar (c : Char) : Bool := c == '.' || Text.isDigit c

theorem isDecimalChar_ascii {c : Char} (h : c.toNat ≤ 0x7f) :
    isDecimalChar c = (c == '.' || c.isDigit) := by
  rw [isDecimalChar, isDigit_ascii h]

theorem isDecimalChar_mark {c : Char} (h : c ∈ ['+', '-', 'e', 'E', 'I']) :
    isDecimalChar c = false := by
  have hmark : c.toNat ≤ 0x7f ∧ (c == '.' || c.isDigit) = false := by
    simp only [List.mem_cons, List.not_mem_nil, or_false] at h
    rcases h with rfl | rfl | rfl | rfl | rfl <;> decide
  rw [isDecimalChar_ascii hmark.1, hmark.2]

theorem isDecimalChar_digits {w : List Char} (h : w ∈ digit∗) : ∀ c ∈ w, isDecimalChar c = true :=
  fun c hc => by simp [isDecimalChar, mem_digit_star.1 h c hc]

theorem isDecimalChar_decimal {d : List Char} (h : d ∈ decimal) :
    ∀ c ∈ d, isDecimalChar c = true := by
  rcases mem_decimal.1 h with h | ⟨ds, hds, fs, hfs, -, rfl⟩
  · exact isDecimalChar_digits (mem_digits.1 h).1
  · exact List.forall_mem_append.2 ⟨isDecimalChar_digits hds,
      List.forall_mem_cons.2 ⟨rfl, isDecimalChar_digits hfs⟩⟩

theorem head_decimal {d : List Char} (h : d ∈ decimal) :
    ∃ c cs, d = c :: cs ∧ isDecimalChar c = true := by
  have hne : d ≠ [] := by
    rcases mem_decimal.1 h with h | ⟨ds, -, fs, -, -, rfl⟩
    · exact (mem_digits.1 h).2
    · simp
  obtain ⟨c, cs, rfl⟩ := List.exists_cons_of_ne_nil hne
  exact ⟨c, cs, rfl, isDecimalChar_decimal h c List.mem_cons_self⟩

theorem spanDigits_append {ds x : List Char} (h : ds ∈ digit∗)
    (hx : ∀ c ∈ x.head?, Text.isDigit c = false) : spanDigits (ds ++ x) = (ds, x) := by
  rw [spanDigits, List.span_eq_takeWhile_dropWhile,
    List.takeWhile_append_of_pos (mem_digit_star.1 h),
    List.dropWhile_append_of_pos (mem_digit_star.1 h)]
  cases x with
  | nil => simp
  | cons c x => simp [hx c rfl]

/-- Every text starts with all of some digits. -/
theorem exists_digits (x : List Char) : ∃ ds ∈ digit∗, ∃ rest, x = ds ++ rest ∧
    ∀ c ∈ rest.head?, Text.isDigit c = false := by
  refine ⟨x.takeWhile Text.isDigit, mem_digit_star.2 fun c hc => List.mem_takeWhile_imp hc,
    x.dropWhile Text.isDigit, List.takeWhile_append_dropWhile.symm, fun c hc => ?_⟩
  have hhead := List.head?_dropWhile_not Text.isDigit x
  rw [Option.mem_def.1 hc] at hhead
  simpa using hhead

/-- Every text starts with all of some digits, or of some digits around a point. -/
theorem exists_decimal (x : List Char) :
    (∃ ds ∈ digit∗, ∃ rest, x = ds ++ rest ∧ ∀ c ∈ rest.head?, isDecimalChar c = false) ∨
    ∃ ds ∈ digit∗, ∃ fs ∈ digit∗, ∃ rest, x = ds ++ '.' :: (fs ++ rest) ∧
      ∀ c ∈ rest.head?, Text.isDigit c = false := by
  obtain ⟨ds, hds, rest, rfl, hrest⟩ := exists_digits x
  by_cases hpoint : rest.head? = some '.'
  · obtain ⟨rest, rfl⟩ := List.head?_eq_some_iff.1 hpoint
    obtain ⟨fs, hfs, rest, rfl, hend⟩ := exists_digits rest
    exact .inr ⟨ds, hds, fs, hfs, rest, rfl, hend⟩
  · refine .inl ⟨ds, hds, rest, rfl, fun c hc => ?_⟩
    rw [isDecimalChar, hrest c hc, Bool.or_false, beq_eq_false_iff_ne]
    rintro rfl
    exact hpoint hc

theorem decimalPrefix?_whole {ds x : List Char} (hds : ds ∈ digit∗)
    (hx : ∀ c ∈ x.head?, isDecimalChar c = false) :
    decimalPrefix? (ds ++ x) = if ds = [] then none else some (ds, x) := by
  rw [decimalPrefix?, spanDigits_append hds fun c hc => (Bool.or_eq_false_iff.1 (hx c hc)).2]
  have hpoint : ∀ rest, x ≠ '.' :: rest := by
    rintro rest rfl
    cases hx '.' rfl
  cases ds <;> cases x <;> simp_all

theorem decimalPrefix?_pointed {ds fs x : List Char} (hds : ds ∈ digit∗) (hfs : fs ∈ digit∗)
    (hx : ∀ c ∈ x.head?, Text.isDigit c = false) :
    decimalPrefix? (ds ++ '.' :: (fs ++ x)) =
      if ds = [] ∧ fs = [] then none else some (ds ++ '.' :: fs, x) := by
  rw [decimalPrefix?, spanDigits_append hds (by rintro _ ⟨⟩; exact isDigit_point)]
  have hspan := spanDigits_append hfs hx
  cases ds <;> simp only [hspan] <;> cases fs <;> simp

/-- A decimal at the start of a text is read, and maybe more digits and a point. -/
theorem decimalPrefix?_append {d : List Char} (hd : d ∈ decimal) (x : List Char) :
    ∃ more rest, decimalPrefix? (d ++ x) = some (d ++ more, rest) ∧ more ++ rest = x ∧
      ∀ c ∈ more, isDecimalChar c = true := by
  rcases mem_decimal.1 hd with hd | ⟨ds, hds, fs, hfs, hne, rfl⟩
  · obtain ⟨hstar, hne⟩ := mem_digits.1 hd
    rcases exists_decimal x with ⟨ds, hds, rest, rfl, hrest⟩ | ⟨ds, hds, fs, hfs, rest, rfl, hrest⟩
    · refine ⟨ds, rest, ?_, rfl, isDecimalChar_digits hds⟩
      rw [← List.append_assoc, decimalPrefix?_whole (star_append hstar hds) hrest]
      simp [hne]
    · refine ⟨ds ++ '.' :: fs, rest, ?_, by simp, List.forall_mem_append.2
        ⟨isDecimalChar_digits hds, List.forall_mem_cons.2 ⟨rfl, isDecimalChar_digits hfs⟩⟩⟩
      rw [← List.append_assoc, decimalPrefix?_pointed (star_append hstar hds) hfs hrest]
      simp [hne]
  · obtain ⟨more, hmore, rest, rfl, hrest⟩ := exists_digits x
    refine ⟨more, rest, ?_, rfl, isDecimalChar_digits hmore⟩
    have hread := decimalPrefix?_pointed hds (star_append hfs hmore) hrest
    rw [if_neg (by simp_all)] at hread
    simpa using hread

/-- A decimal is read as it is where what follows cannot belong to it. -/
theorem decimalPrefix?_ends {d : List Char} (hd : d ∈ decimal) {x : List Char}
    (hx : ∀ c ∈ x.head?, isDecimalChar c = false) : decimalPrefix? (d ++ x) = some (d, x) := by
  obtain ⟨more, rest, hread, rfl, hmore⟩ := decimalPrefix?_append hd x
  cases more with
  | nil => simpa using hread
  | cons c more => exact absurd (hmore c List.mem_cons_self) (by simp [hx c rfl])

/-- Only a decimal is read, and a plain one where the text starts with a digit. -/
theorem decimalPrefix?_sound {x d rest : List Char} (h : decimalPrefix? x = some (d, rest)) :
    d ++ rest = x ∧ d ∈ decimal ∧ (x.head?.any Text.isDigit = true → d ∈ plain) := by
  rcases exists_decimal x with ⟨ds, hds, r, rfl, hr⟩ | ⟨ds, hds, fs, hfs, r, rfl, hr⟩
  · rw [decimalPrefix?_whole hds hr] at h
    split at h
    · cases h
    · rename_i hne
      cases h
      have hmem := mem_digits.2 ⟨hds, hne⟩
      exact ⟨rfl, digits_decimal hmem, fun _ => mem_plain.2 ⟨d, hmem, .inl rfl⟩⟩
  · rw [decimalPrefix?_pointed hds hfs hr] at h
    split at h
    · cases h
    · rename_i hne
      cases h
      refine ⟨by simp, mem_decimal.2 (.inr ⟨ds, hds, fs, hfs, fun h h' => hne ⟨h, h'⟩, rfl⟩),
        fun hdigit => mem_plain.2 ⟨ds, mem_digits.2 ⟨hds, ?_⟩, .inr ⟨fs, hfs, rfl⟩⟩⟩
      rintro rfl
      simp [isDigit_point] at hdigit

theorem spanSign_append {s : List Char} (hs : s ∈ sign) {x : List Char}
    (hx : ∀ c ∈ x.head?, c ∉ ['+', '-']) : spanSign (s ++ x) = (s, x) := by
  rcases mem_sign.1 hs with rfl | rfl | rfl
  · rw [List.nil_append]
    unfold spanSign
    split
    · exact absurd (by decide) (hx '+' rfl)
    · exact absurd (by decide) (hx '-' rfl)
    · rfl
  · rfl
  · rfl

theorem spanSign_decimal {s d : List Char} (hs : s ∈ sign) (hd : d ∈ decimal) (x : List Char) :
    spanSign (s ++ (d ++ x)) = (s, d ++ x) := by
  obtain ⟨c, cs, rfl, hc⟩ := head_decimal hd
  refine spanSign_append hs ?_
  rintro _ ⟨⟩ hsign
  rw [isDecimalChar_mark (List.mem_append_left ['e', 'E', 'I'] hsign)] at hc
  cases hc

theorem spanSign_spec (x : List Char) :
    (spanSign x).1 ∈ sign ∧ (spanSign x).1 ++ (spanSign x).2 = x := by
  rw [mem_sign]
  unfold spanSign
  split <;> simp

theorem exponentPrefix_append {e : List Char} (he : e ∈ power) (hne : e ≠ []) (x : List Char) :
    ∃ more, exponentPrefix (e ++ x) = e ++ more := by
  rcases mem_power.1 he with rfl | ⟨mark, s, ds, hmark, hs, hds, rfl⟩
  · exact absurd rfl hne
  have hmark' : (mark == 'e' || mark == 'E') = true := by rcases hmark with rfl | rfl <;> rfl
  obtain ⟨hstar, hds'⟩ := mem_digits.1 hds
  obtain ⟨more, hmore, rest, rfl, hrest⟩ := exists_digits x
  refine ⟨more, ?_⟩
  rw [List.cons_append, List.append_assoc, exponentPrefix, if_pos hmark',
    spanSign_decimal hs (digits_decimal hds)]
  dsimp only
  rw [← List.append_assoc, spanDigits_append (star_append hstar hmore) hrest]
  simp [hds']

theorem exponentPrefix_spec (x : List Char) :
    exponentPrefix x ∈ power ∧ exponentPrefix x <+: x := by
  have hnil : [] ∈ power ∧ [] <+: x := ⟨mem_power.2 (.inl rfl), List.nil_prefix⟩
  unfold exponentPrefix
  split
  · rename_i c rest
    split
    · rename_i hmark
      obtain ⟨hsign, hjoin⟩ := spanSign_spec rest
      obtain ⟨ds, hds, more, hmore, hhead⟩ := exists_digits (spanSign rest).2
      dsimp only
      rw [hmore, spanDigits_append hds hhead]
      dsimp only
      split
      · exact hnil
      · rename_i hne
        rw [hmore] at hjoin
        refine ⟨mem_power.2 (.inr ⟨c, _, ds, by simpa using hmark, hsign,
          mem_digits.2 ⟨hds, by simpa using hne⟩, rfl⟩), more, ?_⟩
        simpa using hjoin
    · exact hnil
  · exact hnil

/-- The number that a text starts with, as a text. -/
def numeralStart? (x : List Char) : Option (List Char) :=
  if infinityWord.isPrefixOf (spanSign x).2 then some ((spanSign x).1 ++ infinityWord)
  else (decimalPrefix? (spanSign x).2).map fun found =>
    (spanSign x).1 ++ (found.1 ++ exponentPrefix found.2)

theorem numeralStart?_sound {x w : List Char} (h : numeralStart? x = some w) :
    w ∈ numeral ∧ w <+: x := by
  obtain ⟨hsign, hjoin⟩ := spanSign_spec x
  unfold numeralStart? at h
  split at h
  · rename_i hword
    cases h
    obtain ⟨rest, hrest⟩ := List.isPrefixOf_iff_prefix.1 hword
    exact ⟨mem_numeral_iff.2 ⟨_, hsign, .inl rfl⟩, rest, by rw [List.append_assoc, hrest, hjoin]⟩
  · obtain ⟨⟨d, rest⟩, hd, rfl⟩ := Option.map_eq_some_iff.1 h
    obtain ⟨hrest, hmem, -⟩ := decimalPrefix?_sound hd
    obtain ⟨hpower, more, hmore⟩ := exponentPrefix_spec rest
    refine ⟨mem_numeral_iff.2 ⟨_, hsign, .inr ⟨d, hmem, _, hpower, rfl⟩⟩, more, ?_⟩
    rw [List.append_assoc, List.append_assoc, hmore, hrest, hjoin]

/-- No decimal goes on with the letter of a power. -/
theorem head_power {e : List Char} (he : e ∈ power) : ∀ c ∈ e.head?, isDecimalChar c = false := by
  rcases mem_power.1 he with rfl | ⟨mark, s, ds, hmark, -, -, rfl⟩
  · simp
  · rintro _ ⟨⟩
    exact isDecimalChar_mark (by rcases hmark with rfl | rfl <;> decide)

theorem numeralStart?_complete {w : List Char} (hw : w ∈ numeral) (x : List Char) :
    ∃ more, numeralStart? (w ++ x) = some (w ++ more) := by
  obtain ⟨s, hs, rfl | ⟨d, hd, e, he, rfl⟩⟩ := mem_numeral_iff.1 hw
  · have hspan : spanSign (s ++ (infinityWord ++ x)) = (s, infinityWord ++ x) :=
      spanSign_append hs (by rintro _ ⟨⟩; decide)
    refine ⟨[], ?_⟩
    rw [List.append_assoc, numeralStart?, hspan, if_pos, List.append_nil]
    exact List.isPrefixOf_iff_prefix.2 (List.prefix_append ..)
  · have hword : infinityWord.isPrefixOf (d ++ (e ++ x)) = false := by
      obtain ⟨c, cs, rfl, hc⟩ := head_decimal hd
      refine Bool.eq_false_iff.2 fun h => ?_
      obtain ⟨rest, hrest⟩ := List.isPrefixOf_iff_prefix.1 h
      obtain ⟨rfl, -⟩ := List.cons.inj hrest
      rw [isDecimalChar_mark (by decide)] at hc
      cases hc
    rw [List.append_assoc, List.append_assoc, numeralStart?, spanSign_decimal hs hd, hword,
      if_neg Bool.false_ne_true]
    -- without a power the decimal can go on, with one it ends at the letter
    by_cases hne : e = []
    · obtain ⟨more, rest, hread, -⟩ := decimalPrefix?_append hd (e ++ x)
      rw [hread]
      exact ⟨more ++ exponentPrefix rest, by simp [hne]⟩
    · have hhead : ∀ c ∈ (e ++ x).head?, isDecimalChar c = false := by
        rw [List.head?_append_of_ne_nil _ hne]
        exact head_power he
      rw [decimalPrefix?_ends hd hhead]
      obtain ⟨more, hmore⟩ := exponentPrefix_append he hne x
      exact ⟨more, by simp [hmore]⟩

/-- The start of a text that is in a language, and the longest one. -/
structure LongestStart (L : Language Char) (x w : List Char) : Prop where
  /-- It is in the language. -/
  mem : w ∈ L
  /-- The text starts with it. -/
  starts : w <+: x
  /-- No other start of the text in the language is longer. -/
  longest : ∀ v ∈ L, v <+: x → v.length ≤ w.length

/-- What is read is the longest start if it is in the language and never less than any start. -/
theorem longestStart_of_greedy {L : Language Char} {read? : List Char → Option (List Char)}
    (sound : ∀ {x w}, read? x = some w → w ∈ L ∧ w <+: x)
    (complete : ∀ {w}, w ∈ L → ∀ x, ∃ more, read? (w ++ x) = some (w ++ more)) (x : List Char) :
    (∀ w, read? x = some w → LongestStart L x w) ∧ (read? x = none → ∀ v ∈ L, ¬v <+: x) := by
  constructor
  · intro w h
    refine ⟨(sound h).1, (sound h).2, ?_⟩
    rintro v hv ⟨rest, rfl⟩
    obtain ⟨more, hmore⟩ := complete hv rest
    cases h.symm.trans hmore
    exact List.length_append ▸ Nat.le_add_right ..
  · rintro h v hv ⟨rest, rfl⟩
    obtain ⟨more, hmore⟩ := complete hv rest
    cases h.symm.trans hmore

/-! ## Numbers as whole texts -/

/-- Whether a character is neither a blank nor an underscore. -/
def isNumeralChar (c : Char) : Bool := !Text.isBlank c && c != '_'

theorem isNumeralChar_mark {c : Char} (h : c ∈ ['+', '-', '.', 'e', 'E']) :
    isNumeralChar c = true := by
  have hall : (['+', '-', '.', 'e', 'E'].all isNumeralChar) = true := by decide +kernel
  exact List.all_eq_true.1 hall c h

theorem isNumeralChar_decimal {c : Char} (h : isDecimalChar c = true) : isNumeralChar c = true := by
  rcases Bool.or_eq_true_iff.1 h with h | h
  · exact isNumeralChar_mark (by simp [beq_iff_eq.1 h])
  · obtain ⟨hblank, hcode⟩ := isDigit_spec h
    rw [isNumeralChar, hblank, Bool.not_false, Bool.true_and, bne_iff_ne]
    rintro rfl
    revert hcode
    decide

/-- No decimal starts like one of the words for numbers. -/
theorem isAlpha_decimal {c : Char} (h : isDecimalChar c = true) : c.isAlpha = false := by
  rcases Bool.or_eq_true_iff.1 h with h | h
  · rw [beq_iff_eq.1 h]
    rfl
  · have hcode := (isDigit_spec h).2
    have hval : c.val.toNat = c.toNat := rfl
    rw [isDigit_iff_toNat] at hcode
    simp [Char.isAlpha, Char.isUpper, Char.isLower, UInt32.le_iff_toNat_le]
    omega

theorem isNumeralChar_numeral {s d e : List Char} (hs : s ∈ sign) (hd : d ∈ decimal)
    (he : e ∈ power) : ∀ c ∈ s ++ (d ++ e), isNumeralChar c = true := by
  have hsign : ∀ {s : List Char}, s ∈ sign → ∀ c ∈ s, isNumeralChar c = true := by
    intro s hs c hc
    refine isNumeralChar_mark ?_
    rcases mem_sign.1 hs with rfl | rfl | rfl <;> simp_all
  refine List.forall_mem_append.2 ⟨hsign hs, List.forall_mem_append.2 ⟨fun c hc =>
    isNumeralChar_decimal (isDecimalChar_decimal hd c hc), ?_⟩⟩
  rcases mem_power.1 he with rfl | ⟨mark, t, ds, hmark, ht, hds, rfl⟩
  · exact List.forall_mem_nil _
  · refine List.forall_mem_cons.2 ⟨isNumeralChar_mark (by rcases hmark with rfl | rfl <;> decide),
      List.forall_mem_append.2 ⟨hsign ht, fun c hc => ?_⟩⟩
    exact isNumeralChar_decimal (isDecimalChar_digits (mem_digits.1 hds).1 c hc)

theorem splitSign_eq (x : List Char) :
    splitSign x = ((spanSign x).1 == ['-'], (spanSign x).2) := by
  unfold splitSign spanSign
  split <;> simp

theorem splitDigits_eq (x : List Char) : splitDigits x =
    ((spanDigits x).1.map fun c => (Text.digitValue? c).getD 0, (spanDigits x).2) := by
  rw [spanDigits, List.span_eq_takeWhile_dropWhile]
  induction x with
  | nil => rfl
  | cons c x ih =>
    rw [splitDigits]
    cases hc : Text.digitValue? c with
    | none => simp [Text.isDigit, hc]
    | some d => simp [Text.isDigit, hc, ih]

theorem readExponent?_power {e : List Char} (he : e ∈ power) : ∃ n, readExponent? e = some n := by
  rcases mem_power.1 he with rfl | ⟨mark, s, ds, hmark, hs, hds, rfl⟩
  · exact ⟨0, rfl⟩
  have hmark' : (mark == 'e' || mark == 'E') = true := by rcases hmark with rfl | rfl <;> rfl
  have hspan := spanDigits_append (x := []) (mem_digits.1 hds).1 (by simp)
  have hsign := spanSign_decimal hs (digits_decimal hds) []
  obtain ⟨c, cs, rfl⟩ := List.exists_cons_of_ne_nil (mem_digits.1 hds).2
  rw [List.append_nil] at hspan hsign
  rw [readExponent?, if_pos hmark', splitSign_eq, hsign]
  dsimp only
  rw [splitDigits_eq, hspan]
  exact ⟨_, rfl⟩

theorem readUnsigned?_decimal (negative : Bool) {d e : List Char} (hd : d ∈ decimal)
    (he : e ∈ power) : ∃ x, readUnsigned? negative (d ++ e) = some x := by
  obtain ⟨n, hn⟩ := readExponent?_power he
  have hhead := head_power he
  have hdigit : ∀ c ∈ e.head?, Text.isDigit c = false := fun c hc =>
    (Bool.or_eq_false_iff.1 (hhead c hc)).2
  rcases mem_decimal.1 hd with hd | ⟨ds, hds, fs, hfs, hne, rfl⟩
  · obtain ⟨hstar, hne⟩ := mem_digits.1 hd
    have hpoint : ∀ rest, e ≠ '.' :: rest := by
      rintro rest rfl
      cases hhead '.' rfl
    rw [readUnsigned?, splitDigits_eq, spanDigits_append hstar hdigit]
    cases e <;> simp_all
  · rw [List.append_assoc, List.cons_append, readUnsigned?, splitDigits_eq,
      spanDigits_append hds (by rintro _ ⟨⟩; exact isDigit_point)]
    simpa [splitDigits_eq, spanDigits_append hfs hdigit, hn] using hne

/-- A numeral is read as what it is without its sign. -/
theorem readBinary64?_signed {s d e : List Char} (hs : s ∈ sign) (hd : d ∈ decimal)
    (he : e ∈ power) : readBinary64? (s ++ (d ++ e)) = readUnsigned? (s == ['-']) (d ++ e) := by
  have hchars := isNumeralChar_numeral hs hd he
  have hblank : ∀ c ∈ s ++ (d ++ e), Text.isNumberBlank c = false := fun c hc => by
    have := hchars c hc
    simp_all [isNumeralChar, Text.isNumberBlank]
  have hline : '_' ∉ s ++ (d ++ e) := fun hc => absurd (hchars _ hc) (by decide +kernel)
  rw [readBinary64?, Text.trimBy_eq_of_forall hblank, dropUnderscores?_eq hline]
  dsimp only
  rw [splitSign_eq, spanSign_decimal hs hd]
  obtain ⟨c, cs, rfl, hc⟩ := head_decimal hd
  have hlower : ∀ d : Char, d.isLower = true → c.toLower ≠ d := by
    rintro _ hd rfl
    rw [Char.isLower_toLower_eq_isAlpha, isAlpha_decimal hc] at hd
    cases hd
  have hword : ∀ (text : String) {d : Char}, text.toList.head? = some d → c.toLower ≠ d →
      (String.ofList ((c :: cs ++ e).map Char.toLower) == text) = false := fun text d htext hne =>
    ofList_beq_eq_false (by rw [htext]; exact fun h => hne (Option.some.inj h).symm)
  dsimp only
  rw [hword "inf" rfl (hlower 'i' rfl), hword "infinity" rfl (hlower 'i' rfl),
    hword "nan" rfl (hlower 'n' rfl)]
  rfl

theorem readBinary64?_infinity {s : List Char} (hs : s ∈ sign) :
    readBinary64? (s ++ infinityWord) = some (.infinite (s == ['-'])) := by
  rcases mem_sign.1 hs with rfl | rfl | rfl <;> decide +kernel

/-- Every number at the start of an answer is read. -/
theorem exists_readBinary64? {w : List Char} (hw : w ∈ numeral) :
    ∃ x, readBinary64? w = some x := by
  obtain ⟨s, hs, rfl | ⟨d, hd, e, he, rfl⟩⟩ := mem_numeral_iff.1 hw
  · exact ⟨_, readBinary64?_infinity hs⟩
  · rw [readBinary64?_signed hs hd he]
    exact readUnsigned?_decimal _ hd he

theorem numberPrefix?_eq (x : List Char) :
    numberPrefix? x = (numeralStart? x).bind readBinary64? := by
  rw [numberPrefix?, numeralStart?]
  dsimp only
  split
  · exact (readBinary64?_infinity (spanSign_spec x).1).symm
  · cases decimalPrefix? (spanSign x).2 with
    | none => rfl
    | some found => simp

/-! ## The first number in a text -/

/-- A minus at the start of a text, and the text after it. -/
def spanMinus : List Char → List Char × List Char
  | '-' :: rest => (['-'], rest)
  | rest => ([], rest)

/-- The number that a text in the midst of words starts with, as a text. -/
def simpleStart? (x : List Char) : Option (List Char) :=
  if (spanMinus x).2.head?.any Text.isDigit then
    (decimalPrefix? (spanMinus x).2).map fun found => (spanMinus x).1 ++ found.1
  else none

theorem simpleNumber?_eq (x : List Char) :
    simpleNumber? x = (simpleStart? x).bind readBinary64? := by
  unfold simpleNumber? simpleStart?
  split
  rename_i m body heq
  have hminus : spanMinus x = (m, body) := heq
  rw [hminus]
  dsimp only
  rcases exists_decimal body with ⟨ds, hds, r, rfl, hr⟩ | ⟨ds, hds, fs, hfs, r, rfl, hr⟩
  · have hdigit : ∀ c ∈ r.head?, Text.isDigit c = false := fun c hc =>
      (Bool.or_eq_false_iff.1 (hr c hc)).2
    have hpoint : ∀ rest, r ≠ '.' :: rest := by
      rintro rest rfl
      cases hr '.' rfl
    rw [spanDigits_append hds hdigit, decimalPrefix?_whole hds hr]
    cases ds with
    | nil => cases r <;> simp_all
    | cons c ds =>
      have hc := mem_digit_star.1 hds c List.mem_cons_self
      cases r <;> simp_all
  · have hspan := spanDigits_append hfs hr
    rw [spanDigits_append hds (by rintro _ ⟨⟩; exact isDigit_point),
      decimalPrefix?_pointed hds hfs hr]
    cases ds with
    | nil => simp [isDigit_point]
    | cons c ds => simp [mem_digit_star.1 hds c List.mem_cons_self, hspan]

theorem spanMinus_spec (x : List Char) : ((spanMinus x).1 = [] ∨ (spanMinus x).1 = ['-']) ∧
    (spanMinus x).1 ++ (spanMinus x).2 = x := by
  unfold spanMinus
  split <;> simp

theorem simpleStart?_sound {x w : List Char} (h : simpleStart? x = some w) :
    w ∈ simple ∧ w <+: x := by
  obtain ⟨hminus, hjoin⟩ := spanMinus_spec x
  unfold simpleStart? at h
  split at h
  · rename_i hdigit
    obtain ⟨⟨d, rest⟩, hd, rfl⟩ := Option.map_eq_some_iff.1 h
    obtain ⟨hrest, -, hplain⟩ := decimalPrefix?_sound hd
    exact ⟨Language.append_mem_mul hminus (hplain hdigit), rest, by
      rw [List.append_assoc, hrest, hjoin]⟩
  · cases h

theorem head_plain {p : List Char} (hp : p ∈ plain) :
    ∃ c cs, p = c :: cs ∧ Text.isDigit c = true := by
  obtain ⟨ds, hds, hp⟩ := mem_plain.1 hp
  obtain ⟨hstar, hne⟩ := mem_digits.1 hds
  obtain ⟨c, cs, rfl⟩ := List.exists_cons_of_ne_nil hne
  have hc := mem_digit_star.1 hstar c List.mem_cons_self
  rcases hp with rfl | ⟨fs, -, rfl⟩ <;> exact ⟨c, _, rfl, hc⟩

theorem simple_numeral {w : List Char} (hw : w ∈ simple) : w ∈ numeral := by
  obtain ⟨m, hm, p, hp, rfl⟩ := Language.mem_mul.1 hw
  have hsign : m ∈ sign := hm.imp_left .inl
  exact mem_numeral_iff.2 ⟨m, hsign, .inr ⟨p, .inl hp, [], mem_power.2 (.inl rfl), by simp⟩⟩

/-- A plain decimal after a minus or nothing is read. -/
theorem simpleStart?_append {m p : List Char} (hm : m = [] ∨ m = ['-']) (hp : p ∈ plain)
    {x more rest : List Char} (h : decimalPrefix? (p ++ x) = some (p ++ more, rest)) :
    simpleStart? (m ++ (p ++ x)) = some (m ++ (p ++ more)) := by
  obtain ⟨c, cs, hcons, hc⟩ := head_plain hp
  have hspan : spanMinus (m ++ (p ++ x)) = (m, p ++ x) := by
    rcases hm with rfl | rfl
    · have hne : c ≠ '-' := by
        rintro rfl
        cases hc.symm.trans (isDigit_ascii (by decide) : Text.isDigit '-' = false)
      simp [hcons, spanMinus, hne]
    · rfl
  rw [simpleStart?, hspan, if_pos (by simp [hcons, hc]), h]
  rfl

theorem simpleStart?_complete {w : List Char} (hw : w ∈ simple) (x : List Char) :
    ∃ more, simpleStart? (w ++ x) = some (w ++ more) := by
  obtain ⟨m, hm, p, hp, rfl⟩ := Language.mem_mul.1 hw
  obtain ⟨more, rest, hread, -⟩ := decimalPrefix?_append (.inl hp) x
  exact ⟨more, by simpa using simpleStart?_append hm hp hread⟩

/-- The first place in a text where it goes on with a word of a language, and the longest there. -/
def FirstMatch (L : Language Char) (x w : List Char) : Prop :=
  ∃ before rest, x = before ++ rest ∧ LongestStart L rest w ∧
    ∀ k < before.length, ∀ v ∈ L, ¬v <+: x.drop k

theorem FirstMatch.cons {L : Language Char} {c : Char} {x w : List Char} (h : FirstMatch L x w)
    (hc : ∀ v ∈ L, ¬v <+: c :: x) : FirstMatch L (c :: x) w := by
  obtain ⟨before, rest, rfl, hlongest, hfirst⟩ := h
  refine ⟨c :: before, rest, rfl, hlongest, fun k hk => ?_⟩
  cases k with
  | zero => exact hc
  | succ k => exact hfirst k (Nat.lt_of_succ_lt_succ hk)

/-- The first number in a text is found, if the text has a digit. -/
theorem findNumber?_spec (x : List Char) :
    ((∃ c ∈ x, Text.isDigit c = true) ∧ ∃ w y, FirstMatch simple x w ∧
        readBinary64? w = some y ∧ findNumber? x = some y) ∨
      (∀ c ∈ x, Text.isDigit c = false) ∧ findNumber? x = none := by
  induction x with
  | nil => exact .inr ⟨List.forall_mem_nil _, rfl⟩
  | cons c x ih =>
    -- either a number starts here, or none does and the search goes on behind this character
    obtain ⟨hlongest, hnone⟩ :=
      longestStart_of_greedy simpleStart?_sound simpleStart?_complete (c :: x)
    rw [findNumber?, simpleNumber?_eq]
    cases hstart : simpleStart? (c :: x) with
    | some w =>
      have hw := hlongest w hstart
      obtain ⟨y, hy⟩ := exists_readBinary64? (simple_numeral hw.mem)
      obtain ⟨m, -, p, hp, hjoin⟩ := Language.mem_mul.1 hw.mem
      obtain ⟨d, ds, rfl, hd⟩ := head_plain hp
      refine .inl ⟨⟨d, hw.starts.subset (by simp [← hjoin]), hd⟩, w, y,
        ⟨[], c :: x, rfl, hw, by simp⟩, hy, ?_⟩
      rw [Option.bind_some, hy]
    | none =>
      have hdigit : Text.isDigit c = false := by
        refine Bool.eq_false_iff.2 fun hc => hnone hstart [c] ?_ ⟨x, rfl⟩
        have hone : [c] ∈ digits := mem_digits.2 ⟨mem_digit_star.2 (by simpa using hc), by simp⟩
        exact ⟨[], .inl rfl, [c], mem_plain.2 ⟨[c], hone, .inl rfl⟩, rfl⟩
      rcases ih with ⟨⟨d, hd, hdigit'⟩, w, y, hfirst, hread, hfind⟩ | ⟨hall, hfind⟩
      · exact .inl ⟨⟨d, List.mem_cons_of_mem c hd, hdigit'⟩, w, y, hfirst.cons (hnone hstart),
          hread, hfind⟩
      · exact .inr ⟨List.forall_mem_cons.2 ⟨hdigit, hall⟩, hfind⟩

theorem coerce_number (text : String) : coerce .number (.str text) = .ok (coerceNumber text) := rfl

/-- The number in an answer is the longest one that it starts with, blanks at its ends apart. If
there is none and the answer has a digit, it is the first one in it, and the longest one there. If
there is no digit either, the answer stays a text. -/
theorem number_of_answer (text : String) :
    (∃ w x, LongestStart numeral (Text.trim text.toList) w ∧ readBinary64? w = some x ∧
      coerce .number (.str text) = .ok (.float x)) ∨
    (∀ w ∈ numeral, ¬w <+: Text.trim text.toList) ∧
      (((∃ c ∈ text.toList, Text.isDigit c = true) ∧ ∃ w x, FirstMatch simple text.toList w ∧
          readBinary64? w = some x ∧ coerce .number (.str text) = .ok (.float x)) ∨
        (∀ c ∈ text.toList, Text.isDigit c = false) ∧
          coerce .number (.str text) = .ok (.str text)) := by
  obtain ⟨hlongest, hnone⟩ :=
    longestStart_of_greedy numeralStart?_sound numeralStart?_complete (Text.trim text.toList)
  rw [coerce_number, coerceNumber, numberPrefix?_eq]
  cases hstart : numeralStart? (Text.trim text.toList) with
  | some w =>
    obtain ⟨x, hx⟩ := exists_readBinary64? (hlongest w hstart).mem
    exact .inl ⟨w, x, hlongest w hstart, hx, by rw [Option.bind_some, hx]⟩
  | none =>
    refine .inr ⟨hnone hstart, ?_⟩
    rcases findNumber?_spec text.toList with ⟨hdigit, w, x, hfirst, hx, hfind⟩ | ⟨hall, hfind⟩
    · exact .inl ⟨hdigit, w, x, hfirst, hx, by rw [Option.bind_none, hfind]⟩
    · exact .inr ⟨hall, by rw [Option.bind_none, hfind]⟩

/-! ## Numbers after words -/

/-- What of a number is read after words: neither a plus, nor a point in front and a minus before
it, nor a power of ten. -/
def bare (s d : List Char) : List Char :=
  if d.head? = some '.' then d.tail else if s = ['-'] then s ++ d else d

variable {s d e : List Char}

theorem bare_plain (hd : d ∈ plain) : bare s d = if s = ['-'] then s ++ d else d := by
  obtain ⟨c, cs, rfl, hc⟩ := head_plain hd
  refine if_neg ?_
  rintro ⟨⟩
  cases hc.symm.trans isDigit_point

theorem not_isBlank_numeral (hs : s ∈ sign) (hd : d ∈ decimal) (he : e ∈ power) :
    ∀ c ∈ s ++ (d ++ e), Text.isBlank c = false := fun c hc => by
  have := isNumeralChar_numeral hs hd he c hc
  simp_all [isNumeralChar]

theorem numeralStart?_self (hs : s ∈ sign) (hd : d ∈ decimal) (he : e ∈ power) :
    numeralStart? (s ++ (d ++ e)) = some (s ++ (d ++ e)) := by
  obtain ⟨more, hmore⟩ := numeralStart?_complete
    (mem_numeral_iff.2 ⟨s, hs, .inr ⟨d, hd, e, he, rfl⟩⟩) []
  rw [List.append_nil] at hmore
  have hlength := (numeralStart?_sound hmore).2.length_le
  obtain rfl : more = [] := by simpa using hlength
  rwa [List.append_nil] at hmore

theorem findNumber?_skip {c : Char} {x : List Char}
    (h : (spanMinus (c :: x)).2.head?.any Text.isDigit = false) :
    findNumber? (c :: x) = findNumber? x := by
  rw [findNumber?, simpleNumber?_eq, simpleStart?, h]
  rfl

theorem findNumber?_found {m p : List Char} (hm : m = [] ∨ m = ['-']) (hp : p ∈ plain)
    (he : e ∈ power) : findNumber? (m ++ (p ++ e)) = readBinary64? (m ++ p) := by
  have hread : decimalPrefix? (p ++ e) = some (p ++ [], e) := by
    rw [List.append_nil]
    exact decimalPrefix?_ends (.inl hp) (head_power he)
  have hstart := simpleStart?_append hm hp hread
  obtain ⟨y, hy⟩ := exists_readBinary64? (simple_numeral (Language.append_mem_mul hm hp))
  obtain ⟨c, cs, hcons, -⟩ := head_plain hp
  obtain ⟨first, rest, hfirst⟩ : ∃ first rest, m ++ (p ++ e) = first :: rest :=
    List.exists_cons_of_ne_nil (by simp [hcons])
  rw [List.append_nil] at hstart
  rw [hfirst, findNumber?, simpleNumber?_eq, ← hfirst, hstart, Option.bind_some, hy]

/-- After words, the bare number is read. -/
theorem findNumber?_numeral (hs : s ∈ sign) (hd : d ∈ decimal) (he : e ∈ power) :
    findNumber? (s ++ (d ++ e)) = readBinary64? (bare s d) := by
  have hplus : Text.isDigit '+' = false := isDigit_ascii (by decide)
  rcases hd with hd | ⟨_, rfl, fs, hfs, rfl⟩
  · rw [bare_plain hd]
    rcases mem_sign.1 hs with rfl | rfl | rfl
    · exact findNumber?_found (.inl rfl) hd he
    · rw [List.singleton_append, findNumber?_skip (by simpa [spanMinus] using hplus)]
      exact findNumber?_found (.inl rfl) hd he
    · exact findNumber?_found (.inr rfl) hd he
  · have hfound : findNumber? ('.' :: (fs ++ e)) = readBinary64? fs := by
      rw [findNumber?_skip (by simpa [spanMinus] using isDigit_point)]
      exact findNumber?_found (.inl rfl) (mem_plain.2 ⟨fs, hfs, .inl rfl⟩) he
    rcases mem_sign.1 hs with rfl | rfl | rfl
    · exact hfound
    · exact (findNumber?_skip (by simpa [spanMinus] using hplus)).trans hfound
    · exact (findNumber?_skip (by simpa [spanMinus] using isDigit_point)).trans hfound

theorem bare_numeral (hs : s ∈ sign) (hd : d ∈ decimal) : bare s d ∈ numeral := by
  have hsigned : ∀ {s d : List Char}, s ∈ sign → d ∈ decimal → s ++ d ∈ numeral := fun hs hd =>
    mem_numeral_iff.2 ⟨_, hs, .inr ⟨_, hd, [], mem_power.2 (.inl rfl), by simp⟩⟩
  have hunsigned : ∀ {d : List Char}, d ∈ decimal → d ∈ numeral := hsigned (mem_sign.2 (.inl rfl))
  rcases hd with hd | ⟨_, rfl, fs, hfs, rfl⟩
  · rw [bare_plain hd]
    split
    · exact hsigned hs (.inl hd)
    · exact hunsigned (.inl hd)
  · exact hunsigned (digits_decimal hfs)

/-- Whether a character is neither a blank nor at the start of a number. -/
def isWordChar (c : Char) : Bool :=
  !Text.isBlank c && !isDecimalChar c && c != '+' && c != '-' && c != 'I'

theorem isWordChar_of_isLower {c : Char} (h : c.isLower = true) : isWordChar c = true := by
  have hcode : 97 ≤ c.toNat ∧ c.toNat ≤ 122 := by
    simpa [Char.isLower, UInt32.le_iff_toNat_le, ← Char.toNat_val] using h
  have hblank : Text.isBlank c = false := by
    simp [Text.isBlank, Text.inRanges, Text.blankRanges]
    omega
  have hdigit : c.isDigit = false := by
    rw [Bool.eq_false_iff, ne_eq, isDigit_iff_toNat]
    omega
  have hne : ∀ d : Char, d.toNat < 97 → c ≠ d := by
    rintro d hd rfl
    omega
  simp [isWordChar, hblank, isDecimalChar_ascii (show c.toNat ≤ 0x7f by omega), hdigit, hne]

theorem numeralStart?_word {c : Char} (hc : isWordChar c = true) (x : List Char) :
    numeralStart? (c :: x) = none := by
  simp only [isWordChar, Bool.and_eq_true, Bool.not_eq_true', bne_iff_ne] at hc
  obtain ⟨⟨⟨⟨-, hdecimal⟩, hplus⟩, hminus⟩, hword⟩ := hc
  have hspan : spanSign ([] ++ c :: x) = ([], c :: x) :=
    spanSign_append (mem_sign.2 (.inl rfl)) (by rintro _ ⟨⟩; simp [hplus, hminus])
  have hread : decimalPrefix? ([] ++ c :: x) = none := by
    rw [decimalPrefix?_whole (Language.nil_mem_kstar _) (by rintro _ ⟨⟩; exact hdecimal),
      if_pos rfl]
  have hinfinity : infinityWord.isPrefixOf (c :: x) = false := by
    refine Bool.eq_false_iff.2 fun h => ?_
    obtain ⟨rest, hrest⟩ := List.isPrefixOf_iff_prefix.1 h
    exact hword (List.cons.inj hrest).1.symm
  rw [List.nil_append] at hspan hread
  rw [numeralStart?, hspan, hinfinity, if_neg Bool.false_ne_true, hread]
  rfl

theorem findNumber?_words {words : List Char} (h : ∀ c ∈ words, isWordChar c = true)
    (x : List Char) : findNumber? (words ++ ' ' :: x) = findNumber? x := by
  induction words with
  | nil =>
    have hspace : Text.isDigit ' ' = false := isDigit_ascii (by decide)
    exact findNumber?_skip (by simpa [spanMinus] using hspace)
  | cons c words ih =>
    obtain ⟨hc, hwords⟩ := List.forall_mem_cons.1 h
    simp only [isWordChar, isDecimalChar, Bool.and_eq_true, Bool.not_eq_true', bne_iff_ne,
      Bool.or_eq_false_iff] at hc
    exact (findNumber?_skip (by simp [spanMinus, hc])).trans (ih hwords)

theorem coerceNumber_literal (hs : s ∈ sign) (hd : d ∈ decimal) (he : e ∈ power) {x : Binary64}
    (hx : readBinary64? (s ++ (d ++ e)) = some x) {text : String}
    (htext : Text.trim text.toList = s ++ (d ++ e)) : coerceNumber text = .float x := by
  rw [coerceNumber, htext, numberPrefix?_eq, numeralStart?_self hs hd he, Option.bind_some, hx]

theorem coerceNumber_words (hs : s ∈ sign) (hd : d ∈ decimal) (he : e ∈ power)
    {words : List Char} (hwords : ∀ c ∈ words, isWordChar c = true) (hne : words ≠ [])
    {y : Binary64} (hy : readBinary64? (bare s d) = some y) :
    coerceNumber (String.ofList (words ++ ' ' :: (s ++ (d ++ e)))) = .float y := by
  obtain ⟨c, cs, rfl⟩ := List.exists_cons_of_ne_nil hne
  have hc := hwords c List.mem_cons_self
  have htrim : Text.trim (c :: cs ++ ' ' :: (s ++ (d ++ e))) =
      c :: cs ++ ' ' :: (s ++ (d ++ e)) := by
    refine Text.trimBy_eq_self ?_ fun l hl => ?_
    · rintro _ ⟨⟩
      simp_all [isWordChar]
    · obtain ⟨k, ks, hcons, -⟩ := head_decimal hd
      rw [List.getLast?_append, List.getLast?_cons_of_ne_nil (by simp [hcons])] at hl
      exact not_isBlank_numeral hs hd he l (List.mem_of_getLast? (by simpa [hcons] using hl))
  rw [coerceNumber, String.toList_ofList, htrim, numberPrefix?_eq, List.cons_append,
    numeralStart?_word hc, Option.bind_none, ← List.cons_append, findNumber?_words hwords,
    findNumber?_numeral hs hd he, hy]

/-- After letters and a space a number loses what `bare` drops, and its value with it unless it is
digits with at most a point after or among them. After the space alone it is read as it is. -/
theorem number_after_words {letters : List Char} (hs : s ∈ sign) (hd : d ∈ decimal)
    (he : e ∈ power) (hletters : ∀ c ∈ letters, c.isLower = true) :
    ∃ x y, readBinary64? (s ++ (d ++ e)) = some x ∧ readBinary64? (bare s d) = some y ∧
      coerce .number (.str (String.ofList (s ++ (d ++ e)))) = .ok (.float x) ∧
      coerce .number (.str (String.ofList (letters ++ ' ' :: (s ++ (d ++ e))))) =
        .ok (.float (if letters = [] then x else y)) ∧
      (d ∈ plain → e = [] → x = y) := by
  have hwords : ∀ c ∈ letters, isWordChar c = true := fun c hc =>
    isWordChar_of_isLower (hletters c hc)
  have hblank := not_isBlank_numeral hs hd he
  obtain ⟨x, hx⟩ := exists_readBinary64? (mem_numeral_iff.2 ⟨s, hs, .inr ⟨d, hd, e, he, rfl⟩⟩)
  obtain ⟨y, hy⟩ := exists_readBinary64? (bare_numeral hs hd)
  rw [coerce_number, coerce_number]
  refine ⟨x, y, hx, hy, ?_, ?_, ?_⟩
  · rw [coerceNumber_literal hs hd he hx]
    rw [String.toList_ofList, Text.trim, Text.trimBy_eq_of_forall hblank]
  · split
    · rename_i hnil
      rw [coerceNumber_literal hs hd he hx]
      rw [hnil, String.toList_ofList, List.nil_append, Text.trim, Text.trimBy, Text.trimStartBy,
        List.dropWhile_cons_of_pos (by decide +kernel)]
      exact Text.trimBy_eq_of_forall hblank
    · rename_i hne
      rw [coerceNumber_words hs hd he hwords hne hy]
  · rintro hplain rfl
    rw [bare_plain hplain] at hy
    rw [List.append_nil] at hx
    rcases mem_sign.1 hs with rfl | rfl | rfl
    · exact Option.some.inj (hx.symm.trans hy)
    · have hplus := readBinary64?_signed hs hd he
      have hnone := readBinary64?_signed (mem_sign.2 (.inl rfl)) hd he
      rw [List.append_nil] at hplus hnone
      exact Option.some.inj (hx.symm.trans (hplus.trans (hnone.symm.trans hy)))
    · exact Option.some.inj (hx.symm.trans hy)

/-- Words before a number hide its power of ten. -/
theorem number_after_words_power :
    coerce .number (.str "1e5") = .ok (.float (.nearestInt 100000)) ∧
      coerce .number (.str "about 1e5") = .ok (.float (.nearestInt 1)) ∧
      Binary64.nearestInt 100000 ≠ .nearestInt 1 := by
  have hdigits : ['1'] ∈ digits ∧ ['5'] ∈ digits := by
    simp only [mem_digits, mem_digit_star, List.forall_mem_singleton]
    decide +kernel
  have hpower : ['e', '5'] ∈ power :=
    mem_power.2 (.inr ⟨'e', [], ['5'], .inl rfl, mem_sign.2 (.inl rfl), hdigits.2, rfl⟩)
  have hletters : ∀ c ∈ "about".toList, c.isLower = true :=
    List.all_eq_true.1 (by decide +kernel)
  obtain ⟨x, y, hx, hy, hstart, hafter, -⟩ :=
    number_after_words (mem_sign.2 (.inl rfl)) (digits_decimal hdigits.1) hpower hletters
  have hx' : readBinary64? ['1', 'e', '5'] = some (.nearestInt 100000) := by decide +kernel
  have hy' : readBinary64? ['1'] = some (.nearestInt 1) := by decide +kernel
  cases hx'.symm.trans hx
  cases hy'.symm.trans hy
  exact ⟨hstart, hafter, by decide +kernel⟩

end TreeScript.Model
