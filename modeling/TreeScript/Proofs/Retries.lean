import Mathlib
import TreeScript.Http.Request
import TreeScript.Proofs.Runs
import TreeScript.Proofs.ZeroDivision

/-!
# Retries

A request is sent until an answer to it is accepted, and at most once more often than there are
retries. Nothing of the request changes from one attempt to the next. Before each attempt but the
first there is a pause, twice as long as the one before. What the last attempt gives is what the
request gives (`Request.run_retry`).

The pauses are binary64 numbers. The power of two by which the first of them is multiplied is one
itself up to the exponent 1023, which is enough for 1024 retries. So each pause is the number
nearest to a multiple of the first one (`Binary64.mul_nearestInt_two_pow`).
-/

namespace TreeScript

/-! ## Multiples by a power of two -/

theorem roundQuotient_mul_right (num den : Nat) {c : Nat} (hc : 0 < c) :
    roundQuotient (num * c) (den * c) = roundQuotient num den := by
  have hrest : 2 * (num * c % (den * c)) = 2 * (num % den) * c := by
    rw [Nat.mul_mod_mul_right, Nat.mul_assoc]
  have hlt : den * c < 2 * (num % den) * c ↔ den < 2 * (num % den) := Nat.mul_lt_mul_right hc
  have heq : 2 * (num % den) * c = den * c ↔ 2 * (num % den) = den := Nat.mul_left_inj hc.ne'
  simp only [roundQuotient, Nat.mul_div_mul_right num den hc, hrest, hlt, heq]

theorem roundQuotient_of_dvd (q : Nat) {den : Nat} (hden : 0 < den) :
    roundQuotient (q * den) den = q := by
  simp [roundQuotient, Nat.mul_div_cancel q hden, hden.ne]

namespace Binary64

theorem scaleRatio_mul_right (num den c : Nat) (shift : Int) :
    scaleRatio (num * c) (den * c) shift =
      ((scaleRatio num den shift).1 * c, (scaleRatio num den shift).2 * c) := by
  simp only [scaleRatio]
  split_ifs
  · rw [Nat.mul_right_comm]
  · rw [Nat.mul_right_comm]

theorem log2_mul_two_pow {n : Nat} (hn : n ≠ 0) (k : Nat) : (n * 2 ^ k).log2 = n.log2 + k := by
  have hpos : 0 < 2 ^ k := Nat.two_pow_pos k
  rw [Nat.log2_eq_iff (Nat.mul_ne_zero hn hpos.ne'), Nat.pow_add, Nat.add_right_comm, Nat.pow_add]
  exact ⟨Nat.mul_le_mul_right _ (Nat.log2_self_le hn),
    (Nat.mul_lt_mul_right hpos).2 Nat.lt_log2_self⟩

/-- Rounding depends on the quotient, not on its two parts. -/
theorem ofRatio_mul_two_pow (negative : Bool) (num : Nat) {den : Nat} (hden : den ≠ 0) (k : Nat) :
    ofRatio negative (num * 2 ^ k) (den * 2 ^ k) = ofRatio negative num den := by
  have hpos : 0 < 2 ^ k := Nat.two_pow_pos k
  by_cases hnum : num = 0
  · simp [ofRatio, hnum]
  · have hguess : ((num * 2 ^ k).log2 : Int) - (den * 2 ^ k).log2 = num.log2 - den.log2 := by
      rw [log2_mul_two_pow hnum, log2_mul_two_pow hden]
      omega
    have hlog : ratioLog (num * 2 ^ k) (den * 2 ^ k) = ratioLog num den := by
      simp only [ratioLog, hguess, scaleRatio_mul_right, Nat.mul_lt_mul_right hpos]
    simp only [ofRatio, hlog, scaleRatio_mul_right, roundQuotient_mul_right _ _ hpos,
      Nat.mul_eq_zero, hnum, hpos.ne', or_self]

/-- The number `mantissa · 2 ^ exponent` as a quotient with any denominator that is large enough. -/
theorem ofScaled_eq_ofRatio (negative : Bool) (mantissa : Nat) {exponent : Int} {j : Nat}
    (h : 0 ≤ exponent + j) :
    ofScaled negative mantissa exponent =
      ofRatio negative (mantissa * 2 ^ (exponent + j).toNat) (2 ^ j) := by
  rw [ofScaled]
  split_ifs with hexponent
  · have hsum : (exponent + j).toNat = exponent.toNat + j := by omega
    rw [hsum, Nat.pow_add, ← Nat.mul_assoc, ← ofRatio_mul_two_pow _ _ one_ne_zero j, Nat.one_mul]
    rfl
  · obtain ⟨i, hi⟩ : ∃ i, (exponent + j).toNat = i := ⟨_, rfl⟩
    have hsum : j = (-exponent).toNat + i := by omega
    rw [hi, hsum, Nat.pow_add, ofRatio_mul_two_pow _ _ (Nat.two_pow_pos _).ne']
    rfl

theorem ofScaled_mul_two_pow (negative : Bool) (mantissa k : Nat) (exponent : Int) :
    ofScaled negative (mantissa * 2 ^ k) exponent = ofScaled negative mantissa (exponent + k) := by
  have h : 0 ≤ exponent + exponent.natAbs := by omega
  have hsum : (exponent + k + exponent.natAbs).toNat = k + (exponent + exponent.natAbs).toNat := by
    omega
  rw [ofScaled_eq_ofRatio negative _ h,
    ofScaled_eq_ofRatio negative mantissa (show 0 ≤ exponent + k + exponent.natAbs by omega), hsum,
    Nat.pow_add, Nat.mul_assoc]

/-- A power of two is a binary64 number itself up to a certain exponent. -/
theorem nearestInt_two_pow {i : Nat} (h : i ≤ 1023) :
    nearestInt (2 ^ i) = .finite false (2 ^ 52) (i - 52) := by
  have hsize : ((2 : Int) ^ i).natAbs = 2 ^ i := by rw [Int.natAbs_pow]; rfl
  have hsign : decide ((2 : Int) ^ i < 0) = false := by simp [pow_nonneg]
  have hexponent : max ((i : Int) - 52) minExponent = i - 52 := by
    simp only [minExponent]
    omega
  have hparts : roundQuotient (scaleRatio (2 ^ i) 1 (i - 52)).1 (scaleRatio (2 ^ i) 1 (i - 52)).2 =
      2 ^ 52 := by
    rw [scaleRatio]
    split_ifs with hshift
    · obtain ⟨k, rfl⟩ : ∃ k, i = 52 + k := ⟨i - 52, by omega⟩
      have hk : (((52 + k : Nat) : Int) - 52).toNat = k := by omega
      rw [hk, Nat.one_mul, Nat.pow_add]
      exact roundQuotient_of_dvd (2 ^ 52) (Nat.two_pow_pos k)
    · have hk : 52 = i + (-((i : Int) - 52)).toNat := by omega
      have hpower : 2 ^ i * Nat.pow 2 (-((i : Int) - 52)).toNat = 2 ^ 52 * 1 := by
        rw [Nat.mul_one, Nat.pow_eq, ← Nat.pow_add, ← hk]
      rw [hpower]
      exact roundQuotient_of_dvd (2 ^ 52) one_pos
  have hsettle : settle false (2 ^ 52) (i - 52) = .finite false (2 ^ 52) (i - 52) := by
    have hcarried : decide (Nat.pow 2 precision ≤ 2 ^ 52) = false := by decide
    have hmax : ¬maxExponent < (i : Int) - 52 := by
      simp only [maxExponent]
      omega
    simp only [settle, hcarried, Bool.false_eq_true, if_false, hmax]
  rw [nearestInt, hsize, hsign, ofRatio, if_neg (Nat.two_pow_pos i).ne',
    ratioLog_one (Nat.two_pow_pos i).ne', Nat.log2_two_pow]
  dsimp only
  rw [hexponent, hparts, hsettle]

/-- The number nearest to `x · 2 ^ i`. -/
def scaled : Binary64 → Nat → Binary64
  | .nan _, _ => undefined
  | .infinite negative, _ => .infinite negative
  | .finite negative mantissa exponent, i => ofScaled negative mantissa (exponent + i)

theorem mul_nearestInt_two_pow (x : Binary64) {i : Nat} (h : i ≤ 1023) :
    x.mul (nearestInt (2 ^ i)) = x.scaled i := by
  rw [nearestInt_two_pow h]
  cases x with
  | nan label => rfl
  | infinite negative => simp [mul, scaled]
  | finite negative mantissa exponent =>
    have hsum : exponent + ((i : Int) - 52) + (52 : Nat) = exponent + i := by omega
    rw [mul, ofScaled_mul_two_pow, hsum, Bool.bne_false]
    rfl

end Binary64

namespace Http

/-! ## One attempt -/

/-- The answer of a network to the attempt with a number, counted from one. -/
def Network.answer (net : Network) (number : Nat) : Result Response :=
  (net.answers[number - 1]?).getD (.error Talk.exhausted)

/-- The network after some answers, with what went over the wire until then. -/
def Network.after (net : Network) (answered : Nat) (wire : List Exchange) : Network :=
  { net with answers := net.answers.drop answered, log := net.log ++ wire }

/-- Whether an answer is a response, and one of success if it has to be. -/
def isAccepted (strict : Bool) : Result Response → Bool
  | .ok response => !strict || response.isSuccess
  | .error _ => false

/-- The failure that stands for a response that is not accepted. -/
def refusal (url : String) (response : Response) : Failure :=
  .raised "RuntimeError" s!"HTTP {response.status} for {url}: {response.preview}"

/-- What an attempt gives for an answer. -/
def judged (strict : Bool) (url : String) : Result Response → Result Response
  | .ok response =>
    if isAccepted strict (.ok response) then .ok response else .error (refusal url response)
  | .error failure => .error failure

theorem judged_of_isAccepted {strict : Bool} {answer : Result Response}
    (h : isAccepted strict answer = true) (url : String) :
    ∃ response, answer = .ok response ∧ judged strict url answer = .ok response := by
  cases answer with
  | error failure => cases h
  | ok response => exact ⟨response, rfl, if_pos h⟩

theorem judged_of_not_isAccepted {strict : Bool} {answer : Result Response}
    (h : isAccepted strict answer = false) (url : String) :
    ∃ failure, judged strict url answer = .error failure := by
  cases answer with
  | error failure => exact ⟨failure, rfl⟩
  | ok response => exact ⟨refusal url response, if_neg (Bool.eq_false_iff.1 h)⟩

theorem Talk.run_ofResult {α : Type} (x : Result α) (net : Network) :
    (Talk.ofResult x).run.run net = (x, net) := by
  cases x <;> rfl

theorem Talk.run_note (entry : Exchange) (net : Network) :
    (Talk.note entry).run.run net = (.ok (), net.after 0 [entry]) := rfl

/-- Sending a request takes one answer. -/
theorem Talk.run_request (method url : Value) (headers : Bindings) (content : Option (List UInt8))
    (net : Network) :
    (Talk.request method url headers content).run.run net =
      (net.answer 1, net.after 1 [.request method url headers content]) := by
  obtain ⟨answers, postAnswers, log⟩ := net
  cases answers with
  | nil => rfl
  | cons answer rest =>
    cases answer <;> rfl

variable {r : Request} {method : Value} {url : String}

theorem Request.run_attempt (hmethod : capitalMethod r.method = .ok method)
    (hurl : r.url = .str url) (net : Network) :
    r.attempt.run.run net =
      (judged r.strict url (net.answer 1),
        net.after 1 [.request method r.url r.headers r.content]) := by
  rw [attempt, run_run_bind, Talk.run_ofResult, hmethod]
  dsimp only
  rw [run_run_bind, Talk.run_request]
  cases net.answer 1 with
  | error failure => rfl
  | ok response =>
    obtain ⟨_, _, _, _, strict⟩ := r
    obtain rfl := hurl
    dsimp only [judged, isAccepted]
    by_cases hsuccess : response.isSuccess = true
    · cases strict <;> simp [hsuccess] <;> rfl
    · cases strict <;> simp [hsuccess, Value.text] <;> rfl

/-! ## Attempts and pauses -/

/-- The pause after some attempts, counted from zero: the first one, doubled each time. -/
def wait (backoff : Binary64) (attempt : Nat) : Value := .float (backoff.scaled attempt)

theorem delay_eq (backoff : Binary64) {attempt : Nat} (h : attempt ≤ 1023) :
    delay backoff attempt = .ok (wait backoff attempt) := by
  have hpower : ((Nat.pow 2 attempt : Nat) : Int) = 2 ^ attempt := by simp
  have hfloat : Number.toFloat (.int (2 ^ attempt)) = .ok (.nearestInt (2 ^ attempt)) := by
    rw [Number.toFloat, Binary64.ofInt?, Binary64.nearestInt_two_pow h]
    rfl
  rw [delay, hpower]
  show (Number.toFloat (.int (2 ^ attempt)) >>= fun y => pure (Value.float (backoff.mul y))) = _
  rw [hfloat, wait, ← Binary64.mul_nearestInt_two_pow backoff h]
  rfl

/-- What goes over the wire in a number of attempts at a request: the request each time, and a pause
between one time and the next. Some attempts went before. -/
def exchanges (request : Exchange) (backoff : Binary64) (before : Nat) : Nat → List Exchange
  | 0 => []
  | more + 1 =>
    request :: (List.range more).flatMap fun i => [.pause (wait backoff (before + i)), request]

theorem exchanges_succ (request : Exchange) (backoff : Binary64) (before more : Nat) :
    exchanges request backoff before (more + 2) =
      request :: .pause (wait backoff before) ::
        exchanges request backoff (before + 1) (more + 1) := by
  simp [exchanges, List.range_succ_eq_map, List.flatMap_map, Nat.add_assoc, Nat.add_comm 1]

theorem Network.answer_after (net : Network) (answered : Nat) (wire : List Exchange) {number : Nat}
    (h : 1 ≤ number) :
    (net.after answered wire).answer number = net.answer (answered + number) := by
  simp [answer, after, Nat.add_sub_assoc h]

theorem Network.after_after (net : Network) (wire more : List Exchange) (i j : Nat) :
    (net.after i wire).after j more = net.after (i + j) (wire ++ more) := by
  simp [after, List.drop_drop]

/-- A request is sent up to the first answer that is accepted, or as often as it may be. It gives
what its last attempt gives. -/
theorem Request.run_retry (hmethod : capitalMethod r.method = .ok method) (hurl : r.url = .str url)
    (backoff : Binary64) {left before number : Nat} (hbound : before + left ≤ 1024) (net : Network)
    (hpos : 1 ≤ number) (hle : number ≤ left + 1)
    (hearlier : ∀ i, 1 ≤ i → i < number → isAccepted r.strict (net.answer i) = false)
    (hlast : isAccepted r.strict (net.answer number) = true ∨ number = left + 1) :
    (r.retry backoff left before).run.run net =
      (judged r.strict url (net.answer number),
        net.after number
          (exchanges (.request method r.url r.headers r.content) backoff before number)) := by
  induction left generalizing before number net with
  | zero =>
    obtain rfl : number = 1 := by omega
    exact run_attempt hmethod hurl net
  | succ left ih =>
    rw [retry, run_run_tryCatch, run_attempt hmethod hurl]
    by_cases hone : number = 1
    · subst hone
      have haccepted : isAccepted r.strict (net.answer 1) = true := hlast.resolve_right (by omega)
      obtain ⟨response, -, hresponse⟩ := judged_of_isAccepted haccepted url
      rw [hresponse]
      rfl
    · obtain ⟨n, rfl⟩ : ∃ n, number = n + 2 := ⟨number - 2, by omega⟩
      obtain ⟨failure, hfailure⟩ :=
        judged_of_not_isAccepted (hearlier 1 (by omega) (by omega)) url
      rw [hfailure]
      dsimp only
      rw [run_run_bind, Talk.run_ofResult, delay_eq backoff (by omega)]
      dsimp only
      rw [run_run_bind, Talk.run_note]
      dsimp only
      rw [Network.after_after]
      have hanswer : ∀ i, 1 ≤ i → (net.after (1 + 0) ([.request method r.url r.headers r.content] ++
          [.pause (wait backoff before)])).answer i = net.answer (i + 1) := by
        intro i hi
        rw [net.answer_after _ _ hi, Nat.add_comm]
      rw [ih (by omega) _ (show 1 ≤ n + 1 by omega) (by omega), hanswer _ (by omega),
        Network.after_after, exchanges_succ, Nat.add_zero, Nat.add_comm 1 (n + 1)]
      · rfl
      · intro i hi hlt
        rw [hanswer i hi]
        exact hearlier (i + 1) (by omega) (by omega)
      · rw [hanswer _ (by omega)]
        exact hlast.imp_right fun h => by omega

/-! ## Requests -/

/-- The first attempt, counted from one, whose answer is accepted. -/
structure Network.FirstAccepted (net : Network) (strict : Bool) (number : Nat) : Prop where
  positive : 1 ≤ number
  accepted : isAccepted strict (net.answer number) = true
  earlier : ∀ i, 1 ≤ i → i < number → isAccepted strict (net.answer i) = false

theorem Network.isAccepted_of_lt {net : Network} {strict : Bool} {bound : Nat}
    (h : ∀ k, net.FirstAccepted strict k → bound < k) {i : Nat} (hpos : 1 ≤ i) (hle : i ≤ bound) :
    isAccepted strict (net.answer i) = false := by
  induction i using Nat.strong_induction_on with
  | _ i ih =>
    by_contra haccepted
    have hfirst : net.FirstAccepted strict i :=
      ⟨hpos, Bool.eq_true_of_not_eq_false haccepted, fun j hj hlt => ih j hlt hj (by omega)⟩
    exact absurd (h i hfirst) (by omega)

variable {options headers body : Value} {timeout backoff : Binary64} {retries : Int}
  {given sent : Bindings} {content : Option (List UInt8)}

theorem run_send (hoptions : Options.ofValue options = .ok ⟨timeout, retries, backoff⟩)
    (hheaders : headersOf headers = .ok given) (hbody : encodeBody body given = .ok (content, sent))
    (method url : Value) (strict : Bool) (net : Network) :
    (send method url options headers body strict).run.run net =
      (if retries < 0 then pure none
        else some <$> Request.retry ⟨method, url, sent, content, strict⟩ backoff retries.toNat 0 :
        Talk (Option Response)).run.run (net.after 0 [.opened (.float timeout) (some true)]) := by
  rw [send, run_run_bind, Talk.run_ofResult, hoptions]
  dsimp only
  rw [run_run_bind, Talk.run_ofResult, hheaders]
  dsimp only
  rw [run_run_bind, Talk.run_ofResult, hbody]
  dsimp only
  rw [run_run_bind, Talk.run_note]

/-- A request that may be retried is sent up to the first answer that is accepted, and gives the
response; if there is none among the answers that it may have, it gives the failure of the last
attempt. Each time the same is sent, and in between there are pauses, each twice the one before.
With a negative number of retries nothing is sent. -/
theorem send_until_accepted (hoptions : Options.ofValue options = .ok ⟨timeout, retries, backoff⟩)
    (hheaders : headersOf headers = .ok given) (hbody : encodeBody body given = .ok (content, sent))
    (method url : String) (strict : Bool) (net : Network) :
    let run := (send (.str method) (.str url) options headers body strict).run.run net
    let opened : Exchange := .opened (.float timeout) (some true)
    let request : Exchange := .request (.str (Text.uppered method)) (.str url) sent content
    (retries < 0 → run = (.ok none, net.after 0 [opened])) ∧
    (0 ≤ retries → retries ≤ 1024 →
      (∀ k : Nat, net.FirstAccepted strict k → k ≤ retries + 1 →
        ∃ response, net.answer k = .ok response ∧
          run = (.ok (some response), net.after k (opened :: exchanges request backoff 0 k))) ∧
      ((∀ k : Nat, net.FirstAccepted strict k → retries + 1 < k) →
        ∃ failure, judged strict url (net.answer (retries.toNat + 1)) = .error failure ∧
          run = (.error failure, net.after (retries.toNat + 1)
            (opened :: exchanges request backoff 0 (retries.toNat + 1))))) := by
  intro run opened request
  have hrun : run = _ := run_send hoptions hheaders hbody (.str method) (.str url) strict net
  constructor
  · intro hnegative
    rw [hrun, if_pos hnegative]
    rfl
  · intro hpositive hbound
    rw [if_neg (by omega), map_eq_pure_bind, run_run_bind] at hrun
    have hanswer : ∀ i, 1 ≤ i → (net.after 0 [opened]).answer i = net.answer i := by
      intro i hi
      rw [net.answer_after _ _ hi, Nat.zero_add]
    have hretry : ∀ number, 1 ≤ number → number ≤ retries.toNat + 1 →
        (∀ i, 1 ≤ i → i < number → isAccepted strict (net.answer i) = false) →
        isAccepted strict (net.answer number) = true ∨ number = retries.toNat + 1 →
        (Request.retry ⟨.str method, .str url, sent, content, strict⟩
          backoff retries.toNat 0).run.run
            (net.after 0 [opened]) =
          (judged strict url (net.answer number),
            net.after number (opened :: exchanges request backoff 0 number)) := by
      intro number hpos hle hearlier hlast
      rw [Request.run_retry rfl rfl backoff (by omega) _ hpos hle, hanswer number hpos,
        Network.after_after, Nat.zero_add]
      · rfl
      · intro i hi hlt
        rw [hanswer i hi]
        exact hearlier i hi hlt
      · rw [hanswer number hpos]
        exact hlast
    constructor
    · intro k hfirst hle
      obtain ⟨response, hanswer, hresponse⟩ := judged_of_isAccepted hfirst.accepted url
      rw [hretry k hfirst.positive (by omega) hfirst.earlier (.inl hfirst.accepted),
        hresponse] at hrun
      exact ⟨response, hanswer, hrun⟩
    · intro hnone
      have hearlier : ∀ i, 1 ≤ i → i ≤ retries.toNat + 1 →
          isAccepted strict (net.answer i) = false :=
        fun i => Network.isAccepted_of_lt fun k hk => by have := hnone k hk; omega
      obtain ⟨failure, hfailure⟩ :=
        judged_of_not_isAccepted (hearlier (retries.toNat + 1) (by omega) (by omega)) url
      rw [hretry _ (by omega) (by omega) (fun i hi hlt => hearlier i hi (by omega)) (.inr rfl),
        hfailure] at hrun
      exact ⟨failure, hfailure, hrun⟩

/-- A network that cannot be reached, is then too busy and answers at last. -/
def recovering : Network where
  answers := [.error (.raised "ConnectionError" "down"), .ok ⟨503, "busy", none⟩,
    .ok ⟨204, "", none⟩]
  postAnswers := []
  log := []

/-- With two retries the last of these answers is got, after pauses of one and two seconds. -/
theorem send_until_accepted_recovering :
    let options : Value := .ofFields
      [("timeout", .float (.zero false)), ("retries", .int 2), ("backoff", .bool true)]
    let request : Exchange := .request (.str "PUT") (.str "u") [] none
    recovering.FirstAccepted true 3 ∧
      (send (.str "put") (.str "u") options (.map []) .null true).run.run recovering =
        (.ok (some ⟨204, "", none⟩),
          ⟨[], [], [.opened (.float (.zero false)) (some true), request,
            .pause (.float (.nearestInt 1)), request,
            .pause (.float (.nearestInt 2)), request]⟩) := by
  intro options request
  have hfirst : recovering.FirstAccepted true 3 := by
    refine ⟨by decide, rfl, fun i hpos hlt => ?_⟩
    obtain rfl | rfl : i = 1 ∨ i = 2 := by omega
    · rfl
    · rfl
  have hoptions : Options.ofValue options = .ok ⟨.zero false, 2, .nearestInt 1⟩ := rfl
  have hheaders : headersOf (.map []) = .ok [] := rfl
  have hbody : encodeBody .null [] = .ok (none, []) := rfl
  have hupper : Text.uppered "put" = "PUT" := by decide +kernel
  obtain ⟨response, hresponse, hrun⟩ :=
    ((send_until_accepted hoptions hheaders hbody "put" "u" true recovering).2 (by decide)
      (by decide)).1 3 hfirst (by decide)
  cases hresponse
  rw [hupper] at hrun
  exact ⟨hfirst, hrun⟩

end Http

end TreeScript
