import Mathlib.Tactic.Ring
import TreeScript.Evaluation
import TreeScript.Proofs.Basic

/-!
# Division by zero

Division by zero is meant to give an infinity, or what is not a number, and not to fail. The sign of
the infinity is taken from the binary64 numbers nearest to the operands, and an integer can be too
large to have one. So division by zero fails after all, for the integers that are rounded to an
infinity: those from half a unit of the last place above the greatest finite number on
(`Binary64.overflowThreshold`, `Binary64.nearestInt_cases`).

In an operation on many operands this can only happen to the first of them, because every quotient
is a binary64 number (`Value.exists_float_of_div`).
-/

namespace TreeScript

/-! ## Integers that are too large -/

/-- A quotient is rounded to more than an odd number from this number and a half on, since a tie
goes to the even number. -/
theorem le_roundQuotient_iff {num den q : Nat} (hden : 0 < den) (hodd : q % 2 = 1) :
    q + 1 ≤ roundQuotient num den ↔ (2 * q + 1) * den ≤ 2 * num := by
  have hnum : den * (num / den) + num % den = num := Nat.div_add_mod num den
  have hrest : num % den < den := Nat.mod_lt num hden
  have hexpand : (2 * q + 1) * den = 2 * (den * q) + den := by ring
  unfold roundQuotient
  rw [hexpand]
  dsimp only
  rcases Nat.lt_trichotomy (num / den) q with hlt | heq | hgt
  · have hle : den * (num / den + 1) ≤ den * q := Nat.mul_le_mul_left den hlt
    rw [Nat.mul_add_one] at hle
    constructor
    · intro h
      split_ifs at h <;> omega
    · intro h
      omega
  · rw [heq] at hnum ⊢
    split_ifs <;> constructor <;> intro h <;> omega
  · have hle : den * (q + 1) ≤ den * (num / den) := Nat.mul_le_mul_left den hgt
    rw [Nat.mul_add_one] at hle
    constructor
    · intro h
      omega
    · intro h
      split_ifs <;> omega

namespace Binary64

/-- The least size at which an integer is too large: half a unit of the last place above the
greatest finite number. -/
@[irreducible]
def overflowThreshold : Nat := 2 ^ 1024 - 2 ^ 970

theorem overflowThreshold_eq {e f : Nat} (he : 970 = e) (hf : 1024 = f) :
    overflowThreshold = 2 ^ f - 2 ^ e := by
  unfold overflowThreshold
  rw [he, hf]

/-- Integers that are binary64 numbers themselves are not too large. -/
theorem precision_le_overflowThreshold : 2 ^ precision ≤ overflowThreshold := by
  -- a name for the exponent, so that its power is not computed
  obtain ⟨e, he⟩ : ∃ e, 970 = e := ⟨_, rfl⟩
  have hpos : 0 < 2 ^ e := Nat.two_pow_pos e
  rw [overflowThreshold_eq he (show 1024 = e + 54 by omega), Nat.pow_add, precision]
  omega

theorem settle_cases (negative : Bool) (mantissa : Nat) (exponent : Int) :
    (maxExponent < (if 2 ^ precision ≤ mantissa then exponent + 1 else exponent) ∧
      settle negative mantissa exponent = .infinite negative) ∨
    ((if 2 ^ precision ≤ mantissa then exponent + 1 else exponent) ≤ maxExponent ∧
      ∃ m e, settle negative mantissa exponent = .finite negative m e) := by
  unfold settle
  simp only [decide_eq_true_eq, Nat.pow_eq]
  by_cases h : maxExponent < (if 2 ^ precision ≤ mantissa then exponent + 1 else exponent)
  · rw [if_pos h]
    exact .inl ⟨h, rfl⟩
  · rw [if_neg h]
    exact .inr ⟨by omega, _, _, rfl⟩

theorem ratioLog_one {n : Nat} (hn : n ≠ 0) : ratioLog n 1 = n.log2 := by
  have hself : ¬n < 2 ^ n.log2 := Nat.not_lt.2 (Nat.log2_self_le hn)
  have hparts : scaleRatio n 1 (n.log2 : Int) = (n, 2 ^ n.log2) := by
    simp [scaleRatio]
  have hone : Nat.log2 1 = 0 := by decide
  simp [ratioLog, hone, hparts, hself]

/-- An integer of which the size has not many digits is rounded to a finite number. -/
theorem ofRatio_one_small (negative : Bool) {n : Nat} (h : n.log2 < 1023) :
    ∃ m e, ofRatio negative n 1 = .finite negative m e := by
  by_cases hn : n = 0
  · rw [ofRatio, if_pos hn]
    exact ⟨_, _, rfl⟩
  · rw [ofRatio, if_neg hn, ratioLog_one hn]
    dsimp only
    generalize hexponent : max ((n.log2 : Int) - 52) minExponent = exponent
    have hlt : exponent < 971 := by
      simp only [minExponent] at hexponent
      omega
    rcases settle_cases negative (roundQuotient (scaleRatio n 1 exponent).1
      (scaleRatio n 1 exponent).2) exponent with ⟨hover, -⟩ | ⟨-, hfinite⟩
    · simp only [maxExponent] at hover
      split_ifs at hover <;> omega
    · exact hfinite

/-- A size with many digits is rounded to a mantissa of 53 digits, which may carry. -/
theorem ofRatio_one_large (negative : Bool) {n : Nat} (h : 1023 ≤ n.log2) :
    ofRatio negative n 1 =
      settle negative (roundQuotient n (2 ^ (n.log2 - 52))) ((n.log2 - 52 : Nat) : Int) := by
  have hn : n ≠ 0 := by
    rintro rfl
    exact absurd h (by decide)
  have hexponent : max ((n.log2 : Int) - 52) minExponent = ((n.log2 - 52 : Nat) : Int) := by
    simp only [minExponent]
    omega
  have hparts : scaleRatio n 1 ((n.log2 - 52 : Nat) : Int) = (n, 2 ^ (n.log2 - 52)) := by
    simp [scaleRatio]
  rw [ofRatio, if_neg hn, ratioLog_one hn]
  dsimp only
  rw [hexponent, hparts]

/-- A size of `e + 54` digits is rounded up to the next power of two from half a unit below it,
where `2 ^ e` is half a unit of the last place. -/
theorem carries_iff (n e : Nat) :
    2 ^ precision ≤ roundQuotient n (2 ^ (e + 1)) ↔ 2 ^ (e + 54) - 2 ^ e ≤ n := by
  have hpos : 0 < 2 ^ e := Nat.two_pow_pos e
  have hodd : 2 ^ 53 - 1 + 1 ≤ roundQuotient n (2 ^ e * 2) ↔
      (2 * (2 ^ 53 - 1) + 1) * (2 ^ e * 2) ≤ 2 * n :=
    le_roundQuotient_iff (by omega) (by decide)
  rw [Nat.pow_add_one, Nat.pow_add, precision]
  omega

/-- An integer is rounded to a number of its sign, which is infinite if the integer is too large. -/
theorem nearestInt_cases (i : Int) :
    (overflowThreshold ≤ i.natAbs ∧ nearestInt i = .infinite (decide (i < 0))) ∨
    (i.natAbs < overflowThreshold ∧ ∃ m e, nearestInt i = .finite (decide (i < 0)) m e) := by
  unfold nearestInt
  generalize i.natAbs = n
  generalize decide (i < 0) = negative
  obtain ⟨e, he⟩ : ∃ e, 970 = e := ⟨_, rfl⟩
  have hpos : 0 < 2 ^ e := Nat.two_pow_pos e
  have h53 : 2 ^ (e + 53) = 2 ^ e * 2 ^ 53 := Nat.pow_add 2 e 53
  have h54 : 2 ^ (e + 54) = 2 ^ e * 2 ^ 54 := Nat.pow_add 2 e 54
  rw [overflowThreshold_eq he (show 1024 = e + 54 by omega)]
  rcases Nat.lt_trichotomy n.log2 (e + 53) with hlt | heq | hgt
  · have hn : n < 2 ^ (e + 53) :=
      Nat.lt_log2_self.trans_le (Nat.pow_le_pow_right (by decide) hlt)
    exact .inr ⟨by omega, ofRatio_one_small negative (by omega)⟩
  · have hexponent : n.log2 - 52 = e + 1 := by omega
    rw [ofRatio_one_large negative (by omega), hexponent, ← carries_iff]
    rcases settle_cases negative (roundQuotient n (2 ^ (e + 1))) ((e + 1 : Nat) : Int) with
      ⟨hover, hinfinite⟩ | ⟨hbelow, hfinite⟩
    · refine .inl ⟨?_, hinfinite⟩
      by_contra hnot
      rw [if_neg hnot, maxExponent] at hover
      omega
    · refine .inr ⟨?_, hfinite⟩
      by_contra hnot
      rw [if_pos ((carries_iff n e).2 (by omega)), maxExponent] at hbelow
      omega
  · have hne : n ≠ 0 := by
      rintro rfl
      exact absurd hgt (by simp)
    have hn : 2 ^ (e + 54) ≤ n :=
      (Nat.pow_le_pow_right (by decide) hgt).trans (Nat.log2_self_le hne)
    rw [ofRatio_one_large negative (by omega)]
    rcases settle_cases negative (roundQuotient n (2 ^ (n.log2 - 52))) ((n.log2 - 52 : Nat) : Int)
      with ⟨-, hinfinite⟩ | ⟨hbelow, -⟩
    · exact .inl ⟨by omega, hinfinite⟩
    · rw [maxExponent] at hbelow
      split_ifs at hbelow <;> omega

/-- A finite number is equal to zero if its mantissa is. -/
theorem aligned_eq_zero_iff (negative : Bool) (mantissa : Nat) (exponent base : Int) :
    aligned negative mantissa exponent base = 0 ↔ mantissa = 0 := by
  simp only [aligned]
  split <;> simp

theorem compareInt?_zero_eq_iff (x : Binary64) :
    (compareInt? 0 x).map Ordering.swap = some .eq ↔ x.isZero = true := by
  cases x with
  | nan label => simp [compareInt?, isZero]
  | infinite negative => cases negative <;> simp [compareInt?, isZero]
  | finite negative mantissa exponent =>
    have hzero := aligned_eq_zero_iff negative mantissa exponent (min exponent 0)
    simp only [compareInt?, isZero, Int.zero_mul, Option.map_some, Option.some.injEq, beq_iff_eq,
      Ordering.swap_eq_eq, Int.compare_eq_eq]
    rw [eq_comm, hzero]

end Binary64

/-! ## Numbers -/

namespace Number

/-- Whether a number is zero. -/
def isZero : Number → Bool
  | .int i => i == 0
  | .float x => x.isZero

/-- Whether a number is none. -/
def isNaN : Number → Bool
  | .int _ => false
  | .float x => x.isNaN

/-- Whether a number carries the minus sign. -/
def isNegative : Number → Bool
  | .int i => decide (i < 0)
  | .float x => x.isNegative

/-- Whether a number is an integer that is too large for a binary64 number. -/
def isOversized : Number → Bool
  | .int i => decide (Binary64.overflowThreshold ≤ i.natAbs)
  | .float _ => false

theorem isOversized_int {i : Int} :
    (Number.int i).isOversized = true ↔ Binary64.overflowThreshold ≤ i.natAbs :=
  decide_eq_true_iff

/-- Every number has a nearest binary64 number of its sign, if it is not too large. -/
theorem toFloat_cases (x : Number) :
    (x.isOversized = true ∧ x.toFloat = .error (.overflow tooLargeMessage)) ∨
    (x.isOversized = false ∧ ∃ y, x.toFloat = .ok y ∧ y.isNegative = x.isNegative) := by
  cases x with
  | int i =>
    rcases Binary64.nearestInt_cases i with ⟨hover, hinfinite⟩ | ⟨hbelow, m, e, hfinite⟩
    · refine .inl ⟨isOversized_int.2 hover, ?_⟩
      simp [toFloat, Binary64.ofInt?, hinfinite]
    · have hnot : (Number.int i).isOversized = false := by
        rw [Bool.eq_false_iff, ne_eq, isOversized_int]
        omega
      refine .inr ⟨hnot, .finite (decide (i < 0)) m e, ?_, rfl⟩
      simp [toFloat, Binary64.ofInt?, hfinite]
  | float y => exact .inr ⟨rfl, y, rfl, rfl⟩

theorem isOversized_of_lt {i : Int} (h : i.natAbs < 2 ^ Binary64.precision) :
    (Number.int i).isOversized = false := by
  have hle := Binary64.precision_le_overflowThreshold
  rw [Bool.eq_false_iff, ne_eq, isOversized_int]
  omega

theorem isOversized_of_isZero {x : Number} (h : x.isZero = true) : x.isOversized = false := by
  cases x with
  | int i =>
    obtain rfl : i = 0 := by simpa [isZero] using h
    exact isOversized_of_lt (by decide)
  | float y => rfl

end Number

namespace Value

variable {a b : Value} {x y : Number}

/-- A number is equal to zero if it is one. -/
theorem equal_zero (ha : a.number? = some x) : a.equal (.int 0) = x.isZero := by
  have hequal : a.equal (.int 0) = Number.equal x (.int 0) := by
    cases a with
    | bool c =>
      cases ha
      rw [Value.equal]
      rfl
    | int i =>
      cases ha
      rw [Value.equal]
      rfl
    | float z =>
      cases ha
      rw [Value.equal]
      rfl
    | _ => cases ha
  rw [hequal, Bool.eq_iff_iff]
  cases x with
  | int i => simp [Number.equal, Number.compare?, Number.isZero]
  | float z =>
    rw [Number.equal, beq_iff_eq]
    exact Binary64.compareInt?_zero_eq_iff z

theorem real_eq (ha : a.number? = some x) : a.real = x.toFloat := by
  rw [real, ha]

/-- The quotient by zero. -/
theorem div_zero_eq (ha : a.number? = some x) (hb : b.number? = some y) (hzero : y.isZero = true) :
    a.div b =
      if x.isZero || x.isNaN then .ok (.float .undefinedQuotient)
      else if x.isOversized then .error (.overflow tooLargeMessage)
      else .ok (.float (.infinite (x.isNegative != y.isNegative))) := by
  have hdivZero : a.divZero b =
      if x.isNaN || a.equal (.int 0) then .ok (.float .undefinedQuotient)
      else a.real >>= fun p => b.real >>= fun q =>
        .ok (.float (.infinite (p.isNegative != q.isNegative))) := by
    cases a <;> cases ha <;> rfl
  have hq : ∃ q, b.real = .ok q ∧ q.isNegative = y.isNegative := by
    rw [real_eq hb]
    rcases y.toFloat_cases with ⟨hover, -⟩ | ⟨-, hq⟩
    · exact absurd hover (by simp [Number.isOversized_of_isZero hzero])
    · exact hq
  obtain ⟨q, hq, hsign⟩ := hq
  rw [div, equal_zero hb, hzero, if_pos rfl, hdivZero, equal_zero ha, Bool.or_comm]
  by_cases hnan : (x.isZero || x.isNaN) = true
  · rw [if_pos hnan, if_pos hnan]
  · rw [if_neg hnan, if_neg hnan, real_eq ha, hq]
    rcases x.toFloat_cases with ⟨hover, hfails⟩ | ⟨hfits, p, hp, hpsign⟩
    · rw [hfails, if_pos hover]
      rfl
    · rw [hp, hfits, if_neg Bool.false_ne_true, ← hpsign, ← hsign]
      rfl

/-- Division by zero fails exactly for integers that are too large. -/
theorem div_zero_fails_iff (ha : a.number? = some x) (hb : b.number? = some y)
    (hzero : y.isZero = true) : (∃ failure, a.div b = .error failure) ↔ x.isOversized = true := by
  rw [div_zero_eq ha hb hzero]
  constructor
  · rintro ⟨failure, h⟩
    split_ifs at h with _ hover
    exact hover
  · intro hover
    have hnot : ¬(x.isZero || x.isNaN) = true := by
      intro h
      rcases Bool.or_eq_true_iff.1 h with h | h
      · rw [Number.isOversized_of_isZero h] at hover
        cases hover
      · cases x with
        | int i => cases h
        | float z => cases hover
    rw [if_neg hnot, if_pos hover]
    exact ⟨_, rfl⟩

/-- Of all numbers only integers are too large, not truth values. -/
theorem isOversized_iff (ha : a.number? = some x) :
    x.isOversized = true ↔ ∃ i, a = .int i ∧ Binary64.overflowThreshold ≤ i.natAbs := by
  cases a with
  | int i =>
    cases ha
    simp [Number.isOversized_int]
  | bool c =>
    cases ha
    have hsmall : (Number.int (if c then 1 else 0)).isOversized = false :=
      Number.isOversized_of_lt (by cases c <;> decide)
    simp [hsmall]
  | float z =>
    cases ha
    simp [Number.isOversized]
  | _ => cases ha

/-- A quotient of numbers is never an integer. -/
theorem exists_float_of_div {w : Value} (ha : a.number? = some x) (hb : b.number? = some y)
    (h : a.div b = .ok w) : ∃ z, w = .float z := by
  by_cases hzero : y.isZero = true
  · rw [div_zero_eq ha hb hzero] at h
    split_ifs at h <;> cases h <;> exact ⟨_, rfl⟩
  · have hfloats : ∀ w, (x.toFloat >>= fun p => y.toFloat >>= fun q =>
        (.ok (.float (p.div q)) : Result Value)) = .ok w → ∃ z, w = .float z := by
      intro w hw
      obtain ⟨p, -, hw⟩ := Result.bind_eq_ok.1 hw
      obtain ⟨q, -, hw⟩ := Result.bind_eq_ok.1 hw
      cases hw
      exact ⟨_, rfl⟩
    rw [div, equal_zero hb, if_neg hzero, ha, hb] at h
    cases x with
    | float p => exact hfloats w h
    | int i =>
      cases y with
      | float q => exact hfloats w h
      | int j =>
        change quotient i j = .ok w at h
        unfold quotient at h
        split at h
        · cases h
          exact ⟨_, rfl⟩
        · cases h

end Value

/-! ## Many operands -/

/-- From the first quotient on, what has been combined so far is no integer. -/
theorem exists_float_of_foldlM_div {rest : List Value} (hrest : ∀ v ∈ rest, v.number?.isSome = true)
    {z : Binary64} {w : Value} (h : rest.foldlM Value.div (.float z) = .ok w) :
    ∃ z', w = .float z' := by
  induction rest generalizing z with
  | nil =>
    cases h
    exact ⟨z, rfl⟩
  | cons b rest ih =>
    obtain ⟨hb, hrest⟩ := List.forall_mem_cons.1 hrest
    obtain ⟨y, hy⟩ := Option.isSome_iff_exists.1 hb
    rw [List.foldlM_cons] at h
    obtain ⟨u, hu, h⟩ := Result.bind_eq_ok.1 h
    obtain ⟨z', rfl⟩ := Value.exists_float_of_div rfl hy hu
    exact ih hrest h

theorem ArithmeticOp.fold_append_singleton (op : ArithmeticOp) {operands : List Value}
    (hne : operands ≠ []) (b : Value) :
    op.fold (operands ++ [b]) = op.fold operands >>= fun w => op.apply w b := by
  cases operands with
  | nil => exact absurd rfl hne
  | cons a rest =>
    rw [List.cons_append, fold, fold, List.foldlM_append]
    rcases rest.foldlM op.apply a with failure | w
    · rfl
    · show (op.apply w b >>= pure) = op.apply w b
      rw [bind_pure]

/-- Zero and what is not a number divided by zero are not a number. Any other number divided by zero
is an infinity, negative if one of the signs is, except for integers that are too large, for which
division fails. So an operation on numbers that has come to a zero fails there exactly if only one
operand is before it, which is such an integer. -/
theorem division_by_zero {b : Value} {y : Number} (hb : b.number? = some y)
    (hzero : y.isZero = true) :
    (∀ (a : Value) (x : Number), a.number? = some x →
      a.div b =
        if x.isZero || x.isNaN then .ok (.float .undefinedQuotient)
        else if x.isOversized then .error (.overflow tooLargeMessage)
        else .ok (.float (.infinite (x.isNegative != y.isNegative)))) ∧
    ∀ (operands : List Value) (w : Value), (∀ v ∈ operands, v.number?.isSome = true) →
      ArithmeticOp.div.fold operands = .ok w →
        ((∃ failure, ArithmeticOp.div.fold (operands ++ [b]) = .error failure) ↔
          ∃ i, operands = [.int i] ∧ Binary64.overflowThreshold ≤ i.natAbs) := by
  refine ⟨fun a x ha => Value.div_zero_eq ha hb hzero, ?_⟩
  intro operands w hnumbers hw
  cases operands with
  | nil => cases hw
  | cons a rest =>
    rw [ArithmeticOp.fold_append_singleton .div (List.cons_ne_nil a rest) b, hw]
    show (∃ failure, w.div b = .error failure) ↔ _
    obtain ⟨ha, hrest⟩ := List.forall_mem_cons.1 hnumbers
    obtain ⟨x, hx⟩ := Option.isSome_iff_exists.1 ha
    cases rest with
    | nil =>
      cases hw
      rw [Value.div_zero_fails_iff hx hb hzero, Value.isOversized_iff hx]
      simp
    | cons c rest =>
      -- a first quotient has been taken, so that no integer is left
      obtain ⟨hc, hrest⟩ := List.forall_mem_cons.1 hrest
      obtain ⟨x', hx'⟩ := Option.isSome_iff_exists.1 hc
      obtain ⟨u, hu, hw⟩ := Result.bind_eq_ok.1 hw
      obtain ⟨z, rfl⟩ := Value.exists_float_of_div hx hx' hu
      obtain ⟨z', rfl⟩ := exists_float_of_foldlM_div hrest hw
      rw [Value.div_zero_fails_iff rfl hb hzero]
      simp [Number.isOversized]

/-- The least integer that is too large fails, whichever zero it is divided by. -/
theorem division_by_zero_least :
    let least : Value := .int Binary64.overflowThreshold
    least.div (.int 0) = .error (.overflow tooLargeMessage) ∧
      (Value.int (-3)).div (.float (.zero true)) = .ok (.float (.infinite false)) ∧
      ∃ failure, ArithmeticOp.div.fold ([least] ++ [.bool false]) = .error failure := by
  intro least
  have hover : (Number.int Binary64.overflowThreshold).isOversized = true := by
    rw [Number.isOversized_int, Int.natAbs_natCast]
  have hnot : (Number.int Binary64.overflowThreshold).isZero = false := by
    by_contra h
    rw [Number.isOversized_of_isZero (Bool.eq_true_of_not_eq_false h)] at hover
    cases hover
  have hint : (Value.int 0).number? = some (.int 0) := rfl
  have hfloat : (Value.float (.zero true)).number? = some (.float (.zero true)) := rfl
  have hbool : (Value.bool false).number? = some (.int 0) := rfl
  refine ⟨?_, ?_, ?_⟩
  · rw [(division_by_zero hint rfl).1 least (.int Binary64.overflowThreshold) rfl, hnot, hover]
    rfl
  · have hthree : (Number.int (-3)).isOversized = false := Number.isOversized_of_lt (by decide)
    rw [(division_by_zero hfloat rfl).1 (.int (-3)) (.int (-3)) rfl, hthree]
    rfl
  · refine ((division_by_zero hbool rfl).2 [least] least ?_ rfl).2 ⟨_, rfl, ?_⟩
    · intro v hv
      rw [List.mem_singleton.1 hv]
      rfl
    · rw [Int.natAbs_natCast]

end TreeScript
