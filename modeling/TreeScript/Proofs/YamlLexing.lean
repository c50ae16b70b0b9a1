import TreeScript.Proofs.JsonTokens
import TreeScript.Yaml.Token

/-!
# Reading scalars from a cursor

What reading a scalar gives if its text stands at a cursor, and where the cursor is afterwards: for
text in double quotes on one line (`QuotedBody`) and for words without quotes.

Line ends and spaces in front of a token are blank (`isBlank`); after a word they belong to it, as
far as the cursor goes, but not in front of other tokens.
-/

namespace TreeScript

namespace Yaml

/-! ## Cursors -/

namespace Cursor

theorem rest_advance (c : Cursor) : c.advance.rest = c.rest.tail := by
  unfold advance
  split
  · rename_i h
    rw [h]
    rfl
  · rename_i ch rest h
    rw [h]
    dsimp only
    split <;> rfl

theorem rest_skip (n : Nat) (c : Cursor) : (c.skip n).rest = c.rest.drop n := by
  induction n generalizing c with
  | zero => rfl
  | succ n ih => rw [skip, ih, rest_advance, List.drop_tail]

theorem skip_skip (m n : Nat) (c : Cursor) : (c.skip m).skip n = c.skip (m + n) := by
  induction m generalizing c with
  | zero => rw [Nat.zero_add]; rfl
  | succ m ih => rw [skip, ih, Nat.succ_add_eq_add_succ, Nat.add_succ, skip]

/-- The cursor after a text that stands at it. -/
theorem rest_skip_append {c : Cursor} {cs rest : List Char} (h : c.rest = cs ++ rest) :
    (c.skip cs.length).rest = rest := by
  rw [rest_skip, h, List.drop_left]

theorem rest_skip_takeWhile (test : Char → Bool) (c : Cursor) :
    (c.skip (c.rest.takeWhile test).length).rest = c.rest.dropWhile test :=
  rest_skip_append List.takeWhile_append_dropWhile.symm

theorem peek_of_rest {c : Cursor} {ch : Char} {rest : List Char} (h : c.rest = ch :: rest) :
    c.peek = ch := by
  rw [peek, h]
  rfl

theorem peek_of_atMarker {c : Cursor} {mark : Char} (h : c.atMarker mark = true) :
    c.peek = mark := by
  rw [atMarker, Bool.and_eq_true, beq_iff_eq] at h
  cases hrest : c.rest with
  | nil => rw [hrest] at h; cases h.1
  | cons ch cs =>
    rw [hrest] at h
    rw [peek_of_rest hrest]
    exact (List.cons.inj h.1).1

/-- A text without line ends is passed in its line. -/
theorem skip_inLine {c : Cursor} {cs rest : List Char} (h : c.rest = cs ++ rest)
    (hcs : ∀ ch ∈ cs, isBreak ch = false) :
    (c.skip cs.length).line = c.line ∧ (c.skip cs.length).index = c.index + cs.length := by
  induction cs generalizing c with
  | nil => exact ⟨rfl, rfl⟩
  | cons ch cs ih =>
    obtain ⟨hch, hcs⟩ := List.forall_mem_cons.1 hcs
    have hadvance : c.advance.rest = cs ++ rest ∧ c.advance.line = c.line ∧
        c.advance.index = c.index + 1 := by
      have hreturn : ch ≠ '\r' := by
        rintro rfl
        cases hch
      unfold advance
      rw [h]
      simp [hch, hreturn]
    obtain ⟨hrest, hline, hindex⟩ := hadvance
    obtain ⟨hline', hindex'⟩ := ih hrest hcs
    rw [List.length_cons, skip]
    exact ⟨by rw [hline', hline], by rw [hindex', hindex]; omega⟩

end Cursor

namespace Lex

theorem run_bind_ok {α β : Type} {x : Lex α} {f : α → Lex β} {c d : Cursor} {a : α}
    (h : x.run c = .ok (a, d)) : (x >>= f).run c = (f a).run d := by
  rw [StateT.run_bind, h]
  rfl

theorem peek_run (c : Cursor) : peek.run c = .ok (c.peek, c) := rfl

theorem peekAt_run (n : Nat) (c : Cursor) : (peekAt n).run c = .ok (c.peekAt n, c) := rfl

theorem skip_run (n : Nat) (c : Cursor) : (skip n).run c = .ok ((), c.skip n) := rfl

theorem get_run (c : Cursor) : (get : Lex Cursor).run c = .ok (c, c) := rfl

theorem takeWhile_run (test : Char → Bool) (c : Cursor) :
    (takeWhile test).run c =
      .ok (String.ofList (c.rest.takeWhile test), c.skip (c.rest.takeWhile test).length) := by
  have htake : c.rest.take (c.rest.takeWhile test).length = c.rest.takeWhile test :=
    (List.prefix_iff_eq_take.1 (List.takeWhile_prefix test)).symm
  show Except.ok (String.ofList (c.rest.take (c.rest.takeWhile test).length), _) = _
  rw [htake]
  rfl

/-! ## Text in quotes -/

/-- The text between double quotes, on one line, and the characters that it stands for. -/
inductive QuotedBody : List Char → List Char → Prop where
  | nil : QuotedBody [] []
  | char {ch : Char} {cs ds : List Char} (h : ch = ' ' ∨ ch = '\'' ∨ isQuotedWord ch = true) :
    QuotedBody cs ds → QuotedBody (ch :: cs) (ch :: ds)
  | escape {e ch : Char} {cs ds : List Char} (h : escape? e = some ch) :
    QuotedBody cs ds → QuotedBody ('\\' :: e :: cs) (ch :: ds)
  | code {digits : List Char} {code : Nat} {cs ds : List Char} (hlength : digits.length = 4)
    (hcode : Text.ofHex? digits = some code) (hvalid : code.isValidChar) :
    QuotedBody cs ds → QuotedBody ('\\' :: 'u' :: (digits ++ cs)) (Char.ofNat code :: ds)

theorem isBreak_cases {ch : Char} (h : isBreak ch = true) :
    ch = '\n' ∨ ch = '\r' ∨ ch = '\x85' ∨ ch = '\u2028' ∨ ch = '\u2029' := by
  simpa only [isBreak, Bool.or_eq_true, beq_iff_eq, or_assoc] using h

/-- The text between the quotes is on one line. -/
theorem QuotedBody.inLine {cs ds : List Char} (h : QuotedBody cs ds) :
    ∀ ch ∈ cs, isBreak ch = false := by
  induction h with
  | nil => nofun
  | @char ch cs ds hch hbody ih =>
    refine List.forall_mem_cons.2 ⟨?_, ih⟩
    rw [← Bool.not_eq_true]
    intro hbreak
    rcases isBreak_cases hbreak with rfl | rfl | rfl | rfl | rfl <;> exact absurd hch (by decide)
  | @escape e ch cs ds h hbody ih =>
    refine List.forall_mem_cons.2 ⟨rfl, List.forall_mem_cons.2 ⟨?_, ih⟩⟩
    rw [← Bool.not_eq_true]
    intro hbreak
    rcases isBreak_cases hbreak with rfl | rfl | rfl | rfl | rfl <;> cases h
  | @code digits code cs ds hlength hcode hvalid hbody ih =>
    refine List.forall_mem_cons.2 ⟨rfl, List.forall_mem_cons.2 ⟨rfl, fun ch hch => ?_⟩⟩
    rcases List.mem_append.1 hch with hch | hch
    · rw [← Bool.not_eq_true]
      intro hbreak
      have hhex := Text.hexValue?_of_ofHex? hcode ch hch
      rcases isBreak_cases hbreak with rfl | rfl | rfl | rfl | rfl <;> exact hhex rfl
    · exact ih ch hch

/-- The word at a cursor and what comes after it. -/
theorem quotedWord_run (fuel : Nat) {c d : Cursor} {word : String}
    (hword : (takeWhile isQuotedWord).run c = .ok (word, d)) :
    (quotedWord true (fuel + 1)).run c =
      if d.peek == '\'' then ((quotedWord true fuel).run (d.skip 1)).map fun r =>
        (word ++ d.peek.toString ++ r.1, r.2)
      else if d.peek == '\\' then (escaped.run (d.skip 1)).bind fun e =>
        ((quotedWord true fuel).run e.2).map fun r => (word ++ e.1 ++ r.1, r.2)
      else .ok (word, d) := by
  rw [quotedWord, run_bind_ok hword, run_bind_ok (peek_run d), run_bind_ok (peekAt_run 1 d),
    if_neg (by simp)]
  simp only [Bool.true_and, Bool.not_true, Bool.false_and, Bool.or_false]
  split
  · rw [run_bind_ok (skip_run 1 d), StateT.run_bind]
    cases (quotedWord true fuel).run (d.skip 1) <;> rfl
  · split
    · rw [run_bind_ok (skip_run 1 d), StateT.run_bind]
      cases escaped.run (d.skip 1) with
      | error e => rfl
      | ok e =>
        show (quotedWord true fuel >>= fun rest => pure (word ++ e.1 ++ rest)).run e.2 =
          ((quotedWord true fuel).run e.2).map fun r => (word ++ e.1 ++ r.1, r.2)
        rw [StateT.run_bind]
        cases (quotedWord true fuel).run e.2 <;> rfl
    · rfl

theorem quotedWord_char {c : Cursor} {ch : Char} {cs : List Char} (hc : c.rest = ch :: cs)
    (h : isQuotedWord ch = true) (fuel : Nat) :
    (quotedWord true (fuel + 1)).run c =
      ((quotedWord true (fuel + 1)).run (c.skip 1)).map fun r =>
        (String.singleton ch ++ r.1, r.2) := by
  have hrest : (c.skip 1).rest = cs := by rw [Cursor.rest_skip, hc]; rfl
  have hskip : c.skip (c.rest.takeWhile isQuotedWord).length =
      (c.skip 1).skip ((c.skip 1).rest.takeWhile isQuotedWord).length := by
    rw [hrest, hc, List.takeWhile_cons_of_pos h, List.length_cons, Cursor.skip_skip, Nat.add_comm]
  have hword : String.ofList (c.rest.takeWhile isQuotedWord) =
      String.singleton ch ++ String.ofList ((c.skip 1).rest.takeWhile isQuotedWord) := by
    rw [hrest, hc, List.takeWhile_cons_of_pos h, String.ofList_cons]
  rw [quotedWord_run fuel (takeWhile_run isQuotedWord c), hskip, hword,
    quotedWord_run fuel (takeWhile_run isQuotedWord (c.skip 1))]
  generalize (c.skip 1).skip _ = d
  split
  · cases (quotedWord true fuel).run (d.skip 1) with
    | error e => rfl
    | ok r => simp only [Except.map, String.append_assoc]
  · split
    · cases escaped.run (d.skip 1) with
      | error e => rfl
      | ok e =>
        simp only [Except.bind]
        cases (quotedWord true fuel).run e.2 with
        | error e => rfl
        | ok r => simp only [Except.map, String.append_assoc]
    · rfl

/-- A word ends before a character that is not in words. -/
theorem takeWhile_stop {c : Cursor} {ch : Char} {cs : List Char} {test : Char → Bool}
    (hc : c.rest = ch :: cs) (h : test ch = false) : (takeWhile test).run c = .ok ("", c) := by
  rw [takeWhile_run, hc, List.takeWhile_cons_of_neg (by rw [h]; exact Bool.false_ne_true)]
  rfl

theorem quotedWord_apostrophe {c : Cursor} {cs : List Char} (hc : c.rest = '\'' :: cs)
    (fuel : Nat) :
    (quotedWord true (fuel + 1)).run c =
      ((quotedWord true fuel).run (c.skip 1)).map fun r => (String.singleton '\'' ++ r.1, r.2) := by
  rw [quotedWord_run fuel (takeWhile_stop hc rfl), Cursor.peek_of_rest hc]
  rfl

theorem quotedWord_escape {c d : Cursor} {cs : List Char} {e : String} (hc : c.rest = '\\' :: cs)
    (he : escaped.run (c.skip 1) = .ok (e, d)) (fuel : Nat) :
    (quotedWord true (fuel + 1)).run c =
      ((quotedWord true fuel).run d).map fun r => (e ++ r.1, r.2) := by
  rw [quotedWord_run fuel (takeWhile_stop hc rfl), Cursor.peek_of_rest hc, he]
  simp only [String.empty_append]
  rfl

theorem quotedWord_stop {c : Cursor} {ch : Char} {cs : List Char} (hc : c.rest = ch :: cs)
    (h : ch = ' ' ∨ ch = '"') (fuel : Nat) : (quotedWord true (fuel + 1)).run c = .ok ("", c) := by
  have hword : isQuotedWord ch = false := by
    rcases h with rfl | rfl <;> rfl
  rw [quotedWord_run fuel (takeWhile_stop hc hword), Cursor.peek_of_rest hc]
  rcases h with rfl | rfl <;> rfl

/-- A word and the rest of a quoted scalar after it. -/
def quotedFrom (fuel fuel' : Nat) : Lex String := do
  let word ← quotedWord true fuel
  let rest ← quotedRest true '"' fuel'
  pure (word ++ rest)

/-- What comes in front of a word comes in front of the word with all that is read after it. -/
theorem run_append_assoc (tail : Lex String) (e word : String) (c : Cursor) :
    (tail >>= fun rest => pure (e ++ word ++ rest)).run c =
      ((tail >>= fun rest => pure (word ++ rest)).run c).map fun r => (e ++ r.1, r.2) := by
  rw [StateT.run_bind, StateT.run_bind]
  cases tail.run c with
  | error failure => rfl
  | ok r =>
    show Except.ok (e ++ word ++ r.1, _) = Except.ok (e ++ (word ++ r.1), _)
    rw [String.append_assoc]

/-- What comes in front of a word comes in front of the scalar. -/
theorem quotedFrom_of_word {c d : Cursor} {e : String} {fuel after : Nat}
    (h : (quotedWord true fuel).run c =
      ((quotedWord true after).run d).map fun r => (e ++ r.1, r.2)) (fuel' : Nat) :
    (quotedFrom fuel fuel').run c =
      ((quotedFrom after fuel').run d).map fun r => (e ++ r.1, r.2) := by
  unfold quotedFrom
  rw [StateT.run_bind, StateT.run_bind, h]
  cases (quotedWord true after).run d with
  | error e => rfl
  | ok r => exact run_append_assoc (quotedRest true '"' fuel') e r.1 r.2

/-- Whether a character is a space between words of one line. -/
def isWordGap (ch : Char) : Bool := ch == ' ' || ch == '\t'

/-- After spaces, something other than a line end follows. -/
theorem quotedGap_run {c : Cursor} {ch : Char} {cs : List Char}
    (hc : c.rest.dropWhile isWordGap = ch :: cs) (hch : isGap ch = false) :
    quotedGap.run c = .ok (String.ofList (c.rest.takeWhile isWordGap),
      c.skip (c.rest.takeWhile isWordGap).length) := by
  have hrest : (c.skip (c.rest.takeWhile isWordGap).length).rest = ch :: cs := by
    rw [Cursor.rest_skip_takeWhile, hc]
  have hend : (ch == endMark) = false ∧ isBreak ch = false := by
    simp only [isGap, isSpaceOrEnd, isBreakOrEnd, Bool.or_eq_false_iff] at hch
    exact ⟨hch.2.2.2, hch.2.2.1⟩
  have hspaces : (takeWhile fun c => c == ' ' || c == '\t').run c = _ := takeWhile_run isWordGap c
  rw [quotedGap, run_bind_ok hspaces, run_bind_ok (peek_run _), Cursor.peek_of_rest hrest, hend.1,
    hend.2]
  rfl

/-- The rest of a quoted scalar from spaces on. -/
theorem quotedRest_run {c : Cursor} {ch : Char} {cs : List Char} (hpeek : c.peek ≠ '"')
    (hc : c.rest.dropWhile isWordGap = ch :: cs) (hch : isGap ch = false) (fuel : Nat) :
    (quotedRest true '"' (fuel + 1)).run c =
      ((quotedFrom (cs.length + 2) fuel).run (c.skip (c.rest.takeWhile isWordGap).length)).map
        fun r => (String.ofList (c.rest.takeWhile isWordGap) ++ r.1, r.2) := by
  have hrest : (c.skip (c.rest.takeWhile isWordGap).length).rest = ch :: cs := by
    rw [Cursor.rest_skip_takeWhile, hc]
  rw [quotedRest, run_bind_ok (peek_run c), if_neg (by simpa using hpeek),
    run_bind_ok (quotedGap_run hc hch), run_bind_ok (get_run _), hrest]
  generalize c.skip _ = d
  generalize String.ofList _ = spaces
  rw [quotedFrom, StateT.run_bind, StateT.run_bind, List.length_cons]
  cases (quotedWord true (cs.length + 2)).run d with
  | error e => rfl
  | ok r => exact run_append_assoc (quotedRest true '"' fuel) spaces r.1 r.2

theorem escaped_simple {c : Cursor} {e ch : Char} {cs : List Char} (hc : c.rest = e :: cs)
    (h : escape? e = some ch) : escaped.run c = .ok (String.singleton ch, c.skip 1) := by
  rw [escaped, run_bind_ok (peek_run c), Cursor.peek_of_rest hc]
  simp only [h]
  rfl

theorem escaped_code {c : Cursor} {digits cs : List Char} {code : Nat}
    (hc : c.rest = 'u' :: (digits ++ cs)) (hlength : digits.length = 4)
    (hcode : Text.ofHex? digits = some code) (hlt : code < 0x110000) :
    escaped.run c = .ok (String.singleton (Char.ofNat code), c.skip 5) := by
  have htake : (c.skip 1).rest.take 4 = digits := by
    rw [Cursor.rest_skip, hc, List.drop_succ_cons, List.drop_zero, ← hlength, List.take_left]
  rw [escaped, run_bind_ok (peek_run c), Cursor.peek_of_rest hc]
  show (skip 1 >>= _).run c = _
  rw [run_bind_ok (skip_run 1 c), run_bind_ok (get_run _)]
  simp only [htake, hcode]
  rw [if_neg (by omega)]
  have hchar : StateT.run (liftM (charOf code) : Lex Char) (c.skip 1) =
      .ok (Char.ofNat code, c.skip 1) := by
    rw [charOf, if_pos hlt]
    rfl
  rw [run_bind_ok hchar, run_bind_ok (skip_run 4 _), Cursor.skip_skip]
  rfl

/-- The space inside a quoted scalar is followed by something other than a line end. -/
theorem QuotedBody.dropWhile {cs ds : List Char} (h : QuotedBody cs ds) (rest : List Char) :
    ∃ ch tail, (cs ++ '"' :: rest).dropWhile isWordGap = ch :: tail ∧ isGap ch = false := by
  induction h with
  | nil => exact ⟨'"', rest, rfl, rfl⟩
  | @char ch cs ds hch hbody ih =>
    rcases hch with rfl | rfl | hch
    · exact ih
    · exact ⟨'\'', cs ++ '"' :: rest, rfl, rfl⟩
    · have hgap : isGap ch = false := by
        simp only [isQuotedWord, Bool.not_eq_true', Bool.or_eq_false_iff] at hch
        exact hch.1.1.1
      have hspace : isWordGap ch = false := by
        simp only [isGap, isSpaceOrEnd, Bool.or_eq_false_iff] at hgap
        rw [isWordGap, hgap.1, hgap.2.1]
        rfl
      refine ⟨ch, cs ++ '"' :: rest, ?_, hgap⟩
      rw [List.cons_append, List.dropWhile_cons_of_neg (by rw [hspace]; exact Bool.false_ne_true)]
  | escape h hbody ih => exact ⟨'\\', _, rfl, rfl⟩
  | code hlength hcode hvalid hbody ih => exact ⟨'\\', _, rfl, rfl⟩

/-- A quoted scalar goes on with a space, or with a word. -/
theorem QuotedBody.starts {cs ds : List Char} (h : QuotedBody cs ds) (rest : List Char) :
    (∃ tail, cs = ' ' :: tail) ∨ (cs ++ '"' :: rest).takeWhile isWordGap = [] := by
  cases h with
  | nil => exact .inr rfl
  | @char ch cs ds hch hbody =>
    rcases hch with rfl | rfl | hch
    · exact .inl ⟨cs, rfl⟩
    · exact .inr rfl
    · have hspace : ¬isWordGap ch = true := by
        intro hspace
        rw [isWordGap, Bool.or_eq_true, beq_iff_eq, beq_iff_eq] at hspace
        rcases hspace with rfl | rfl <;> cases hch
      exact .inr (by rw [List.cons_append, List.takeWhile_cons_of_neg hspace])
  | escape h hbody => exact .inr rfl
  | code hlength hcode hvalid hbody => exact .inr rfl

theorem quotedFrom_of_rest {c : Cursor} {ch : Char} {cs : List Char} (hc : c.rest = ch :: cs)
    (h : ch = ' ' ∨ ch = '"') (fuel fuel' : Nat) :
    (quotedFrom (fuel + 1) fuel').run c = (quotedRest true '"' fuel').run c := by
  rw [quotedFrom, run_bind_ok (quotedWord_stop hc h fuel), StateT.run_bind]
  cases (quotedRest true '"' fuel').run c with
  | error e => rfl
  | ok r =>
    show Except.ok ("" ++ r.1, r.2) = _
    rw [String.empty_append]

/-- A space in front of a quoted scalar that is read is in front of what it stands for. -/
theorem QuotedBody.run_space {cs ds : List Char} (h : QuotedBody cs ds) {c d : Cursor}
    {rest : List Char} (hc : c.rest = ' ' :: (cs ++ '"' :: rest)) {fuel fuel' : Nat} {s : String}
    (hrun : ∀ fuel fuel', cs.length < fuel → cs.length < fuel' →
      (quotedFrom fuel fuel').run (c.skip 1) = .ok (s, d))
    (hfuel' : cs.length < fuel') :
    (quotedFrom (fuel + 1) (fuel' + 1)).run c = .ok (String.singleton ' ' ++ s, d) := by
  obtain ⟨ch, tail, hdrop, hgap⟩ := h.dropWhile rest
  have hrest : (c.skip 1).rest = cs ++ '"' :: rest := by rw [Cursor.rest_skip, hc]; rfl
  have hspaces : c.rest.takeWhile isWordGap = ' ' :: (cs ++ '"' :: rest).takeWhile isWordGap := by
    rw [hc]
    rfl
  have hplace : c.skip (c.rest.takeWhile isWordGap).length =
      (c.skip 1).skip ((cs ++ '"' :: rest).takeWhile isWordGap).length := by
    rw [Cursor.skip_skip, hspaces, List.length_cons, Nat.add_comm 1]
  rw [quotedFrom_of_rest hc (.inl rfl),
    quotedRest_run (by rw [Cursor.peek_of_rest hc]; decide) (by rw [hc]; exact hdrop) hgap,
    hplace, hspaces, String.ofList_cons]
  rcases h.starts rest with ⟨others, rfl⟩ | hnone
  · -- More spaces: those of the rest are the spaces after this one.
    have hhere := hrun (others.length + 2) (fuel' + 1) (Nat.lt_succ_self _) (by omega)
    rw [quotedFrom_of_rest hrest (.inl rfl), quotedRest_run
      (by rw [Cursor.peek_of_rest hrest]; decide) (by rw [hrest]; exact hdrop) hgap, hrest] at hhere
    revert hhere
    generalize (quotedFrom _ _).run _ = found
    intro hhere
    cases found with
    | error e => cases hhere
    | ok r =>
      cases hhere
      show Except.ok (_ ++ _ ++ r.1, r.2) = Except.ok (_ ++ (_ ++ r.1), r.2)
      rw [String.append_assoc]
  · have hall : cs ++ '"' :: rest = ch :: tail := by
      have := List.takeWhile_append_dropWhile (p := isWordGap) (l := cs ++ '"' :: rest)
      rwa [hnone, hdrop, List.nil_append, eq_comm] at this
    have hlength : cs.length < tail.length + 2 := by
      have := congrArg List.length hall
      rw [List.length_append, List.length_cons, List.length_cons] at this
      omega
    rw [hnone]
    show ((quotedFrom (tail.length + 2) fuel').run (c.skip 1)).map _ = _
    rw [hrun (tail.length + 2) fuel' hlength hfuel']
    show Except.ok (String.singleton ' ' ++ "" ++ s, d) = _
    rw [String.append_empty]

/-- The text between double quotes is read up to the closing quote. -/
theorem QuotedBody.run {cs ds : List Char} (h : QuotedBody cs ds) {c : Cursor} {rest : List Char}
    (hc : c.rest = cs ++ '"' :: rest) {fuel fuel' : Nat} (hfuel : cs.length < fuel)
    (hfuel' : cs.length < fuel') :
    (quotedFrom fuel fuel').run c = .ok (String.ofList ds, c.skip (cs.length + 1)) := by
  induction h generalizing c fuel fuel' with
  | nil =>
    obtain ⟨fuel, rfl⟩ : ∃ n, fuel = n + 1 := ⟨fuel - 1, by omega⟩
    obtain ⟨fuel', rfl⟩ : ∃ n, fuel' = n + 1 := ⟨fuel' - 1, by omega⟩
    rw [quotedFrom_of_rest hc (.inr rfl), quotedRest, run_bind_ok (peek_run c),
      Cursor.peek_of_rest hc]
    rfl
  | @char ch cs ds hch hbody ih =>
    obtain ⟨fuel, rfl⟩ : ∃ n, fuel = n + 1 := ⟨fuel - 1, by omega⟩
    obtain ⟨fuel', rfl⟩ : ∃ n, fuel' = n + 1 := ⟨fuel' - 1, by omega⟩
    rw [List.length_cons] at hfuel hfuel'
    have hrest : (c.skip 1).rest = cs ++ '"' :: rest := by rw [Cursor.rest_skip, hc]; rfl
    have hplace : c.skip ((ch :: cs).length + 1) = (c.skip 1).skip (cs.length + 1) := by
      rw [Cursor.skip_skip, List.length_cons, Nat.add_comm 1]
    rw [hplace, String.ofList_cons]
    rcases hch with rfl | rfl | hch
    · exact hbody.run_space hc (fun _ _ h h' => ih hrest h h') (by omega)
    · rw [quotedFrom_of_word (quotedWord_apostrophe hc fuel), ih hrest (by omega) (by omega)]
      rfl
    · rw [quotedFrom_of_word (quotedWord_char hc hch fuel), ih hrest (by omega) (by omega)]
      rfl
  | @escape e ch cs ds h hbody ih =>
    obtain ⟨fuel, rfl⟩ : ∃ n, fuel = n + 1 := ⟨fuel - 1, by omega⟩
    rw [List.length_cons, List.length_cons] at hfuel hfuel'
    have hletter : (c.skip 1).rest = e :: (cs ++ '"' :: rest) := by rw [Cursor.rest_skip, hc]; rfl
    have hrest : ((c.skip 1).skip 1).rest = cs ++ '"' :: rest := by
      rw [Cursor.rest_skip, hletter]
      rfl
    have hlengths : ('\\' :: e :: cs).length + 1 = 1 + (1 + (cs.length + 1)) := by
      simp only [List.length_cons]
      omega
    rw [quotedFrom_of_word (quotedWord_escape hc (escaped_simple hletter h) fuel),
      ih hrest (by omega) (by omega), hlengths, Cursor.skip_skip, Cursor.skip_skip,
      String.ofList_cons]
    rfl
  | @code digits code cs ds hlength hcode hvalid hbody ih =>
    obtain ⟨fuel, rfl⟩ : ∃ n, fuel = n + 1 := ⟨fuel - 1, by omega⟩
    simp only [List.length_cons, List.length_append, hlength] at hfuel hfuel'
    have hletter : (c.skip 1).rest = 'u' :: (digits ++ (cs ++ '"' :: rest)) := by
      rw [Cursor.rest_skip, hc, ← List.append_assoc]
      rfl
    have hrest : ((c.skip 1).skip 5).rest = cs ++ '"' :: rest := by
      rw [Cursor.rest_skip, hletter, List.drop_succ_cons, ← hlength, List.drop_left]
    have hlengths : ('\\' :: 'u' :: (digits ++ cs)).length + 1 = 1 + (5 + (cs.length + 1)) := by
      simp only [List.length_cons, List.length_append, hlength]
      omega
    have hlt : code < 0x110000 := by
      rw [Nat.isValidChar] at hvalid
      omega
    rw [quotedFrom_of_word (quotedWord_escape hc (escaped_code hletter hlength hcode hlt) fuel),
      ih hrest (by omega) (by omega), hlengths, Cursor.skip_skip, Cursor.skip_skip,
      String.ofList_cons]
    rfl

/-- A text in double quotes is read. -/
theorem QuotedBody.quoted {cs ds : List Char} (h : QuotedBody cs ds) {c : Cursor} {rest : List Char}
    (hc : c.rest = '"' :: (cs ++ '"' :: rest)) :
    (quoted '"').run c = .ok (String.ofList ds, c.skip (cs.length + 2)) := by
  have hrest : (c.skip 1).rest = cs ++ '"' :: rest := by rw [Cursor.rest_skip, hc]; rfl
  have hfuel : cs.length < (c.skip 1).rest.length + 1 := by
    rw [hrest, List.length_append]
    omega
  have hrun := h.run hrest hfuel hfuel
  rw [Cursor.skip_skip, Nat.add_comm 1] at hrun
  exact hrun

/-! ## Spaces and line ends -/

/-- Whether a character is a space, or ends a line in the usual way. -/
def isLayout (ch : Char) : Bool := ch == ' ' || ch == '\n' || ch == '\r'

theorem eq_of_isLayout {ch : Char} (h : isLayout ch = true) : ch = ' ' ∨ ch = '\n' ∨ ch = '\r' := by
  simpa only [isLayout, Bool.or_eq_true, beq_iff_eq, or_assoc] using h

/-- The spaces in front of the first line end. -/
theorem spaces_of_layout {blank more : List Char} (hblank : blank.all isLayout = true)
    (hmore : more.headD endMark ≠ ' ') :
    ∃ spaces others, blank = spaces ++ others ∧ (blank ++ more).takeWhile (· == ' ') = spaces ∧
      ∀ ch ∈ others.head?, ch = '\n' ∨ ch = '\r' := by
  induction blank with
  | nil =>
    refine ⟨[], [], rfl, ?_, nofun⟩
    cases more with
    | nil => rfl
    | cons ch more => exact List.takeWhile_cons_of_neg (by simpa using hmore)
  | cons ch blank ih =>
    rw [List.all_cons, Bool.and_eq_true] at hblank
    rcases eq_of_isLayout hblank.1 with rfl | hch
    · obtain ⟨spaces, others, hsplit, htake, hothers⟩ := ih hblank.2
      refine ⟨' ' :: spaces, others, by rw [hsplit]; rfl, ?_, hothers⟩
      rw [List.cons_append, List.takeWhile_cons_of_pos (by rfl), htake]
    · refine ⟨[], ch :: blank, rfl, ?_, ?_⟩
      · exact List.takeWhile_cons_of_neg (by rcases hch with rfl | rfl <;> decide)
      · rintro _ ⟨⟩
        exact hch

theorem takeBreak_none {c : Cursor} (h : isBreak c.peek = false) :
    takeBreak.run c = .ok ("", c) := by
  simp only [isBreak, Bool.or_eq_false_iff] at h
  obtain ⟨⟨⟨⟨hfeed, hreturn⟩, hnext⟩, hline⟩, hparagraph⟩ := h
  have hpair : (c.rest.take 2 == ['\r', '\n']) = false := by
    rw [beq_eq_false_iff_ne]
    intro hpair
    cases hrest : c.rest with
    | nil => rw [hrest] at hpair; cases hpair
    | cons ch cs =>
      rw [hrest] at hpair
      obtain rfl : ch = '\r' := (List.cons.inj hpair).1
      rw [Cursor.peek_of_rest hrest] at hreturn
      cases hreturn
  rw [takeBreak, run_bind_ok (get_run c), hpair, hfeed, hreturn, hnext, hline, hparagraph]
  rfl

theorem takeBreak_pair {c : Cursor} {cs : List Char} (hc : c.rest = '\r' :: '\n' :: cs) :
    takeBreak.run c = .ok ("\n", c.skip 2) := by
  rw [takeBreak, run_bind_ok (get_run c), hc]
  rfl

theorem takeBreak_single {c : Cursor} {ch : Char} {cs : List Char} (hc : c.rest = ch :: cs)
    (hch : ch = '\n' ∨ ch = '\r') (hpair : ch = '\r' → cs.head? ≠ some '\n') :
    takeBreak.run c = .ok ("\n", c.skip 1) := by
  have htake : (c.rest.take 2 == ['\r', '\n']) = false := by
    rw [beq_eq_false_iff_ne, hc]
    intro htake
    obtain ⟨hreturn, htail⟩ := List.cons.inj htake
    have hhead := congrArg List.head? htail
    rw [List.head?_take, if_neg (by decide)] at hhead
    exact hpair hreturn hhead
  rw [takeBreak, run_bind_ok (get_run c), htake, Cursor.peek_of_rest hc]
  rcases hch with rfl | rfl <;> rfl

/-- At a line end, one or two characters are taken. -/
theorem takeBreak_some {c : Cursor} {ch : Char} {blank more : List Char}
    (hc : c.rest = ch :: blank ++ more) (hch : ch = '\n' ∨ ch = '\r')
    (hblank : blank.all isLayout = true) (hmore : more.head? ≠ some '\n') :
    ∃ n after, n + after.length = (ch :: blank).length ∧ after.length ≤ blank.length ∧
      after.all isLayout = true ∧ (c.skip n).rest = after ++ more ∧
      takeBreak.run c = .ok ("\n", c.skip n) := by
  by_cases hpair : ch = '\r' ∧ ∃ tail, blank = '\n' :: tail
  · obtain ⟨rfl, tail, rfl⟩ := hpair
    refine ⟨2, tail, ?_, ?_, hblank, ?_, takeBreak_pair hc⟩
    · rw [List.length_cons, List.length_cons, Nat.add_comm]
    · exact Nat.le_succ _
    · rw [Cursor.rest_skip, hc]
      rfl
  · refine ⟨1, blank, Nat.add_comm .., Nat.le_refl _, hblank, ?_, ?_⟩
    · rw [Cursor.rest_skip, hc]
      rfl
    · refine takeBreak_single hc hch fun hreturn hhead => ?_
      cases blank with
      | nil => exact hmore hhead
      | cons next tail =>
        obtain rfl : next = '\n' := Option.some.inj hhead
        exact hpair ⟨hreturn, tail, rfl⟩

/-! ## Words without quotes -/

/-- Whether a character is inside words, wherever they stand and whatever comes after it. -/
def isPlainWord (ch : Char) : Bool := !(isGap ch || ch == ':' || ",?[]\x7b\x7d".toList.contains ch)

/-- Whether a text is at its end, or goes on with what ends a word between brackets. -/
def closes (inFlow : Bool) : List Char → Bool
  | [] => true
  | ch :: _ => inFlow && (ch == ',' || ch == ']' || ch == '\x7d')

theorem plainEnds_of_closes {inFlow : Bool} {more : List Char} (h : closes inFlow more = true) :
    plainEnds inFlow more = true := by
  cases more with
  | nil => rfl
  | cons ch cs =>
    simp only [closes, Bool.and_eq_true, Bool.or_eq_true, beq_iff_eq] at h
    obtain ⟨rfl, (rfl | rfl) | rfl⟩ := h <;> rfl

theorem plainEnds_of_layout {ch : Char} (h : isLayout ch = true) (inFlow : Bool) (cs : List Char) :
    plainEnds inFlow (ch :: cs) = true := by
  simp only [isLayout, Bool.or_eq_true, beq_iff_eq] at h
  obtain (rfl | rfl) | rfl := h <;> rfl

theorem plainLength_of_plainEnds {inFlow : Bool} {rest : List Char}
    (h : plainEnds inFlow rest = true) : plainLength inFlow rest = 0 := by
  cases rest with
  | nil => rfl
  | cons ch cs => rw [plainLength, if_pos h]

theorem plainLength_word {inFlow : Bool} {word rest : List Char}
    (hword : word.all isPlainWord = true) (hrest : plainEnds inFlow rest = true) :
    plainLength inFlow (word ++ rest) = word.length := by
  induction word with
  | nil => exact plainLength_of_plainEnds hrest
  | cons ch cs ih =>
    rw [List.all_cons, Bool.and_eq_true] at hword
    have hends : plainEnds inFlow (ch :: (cs ++ rest)) = false := by
      have hch := hword.1
      simp only [isPlainWord, Bool.not_eq_true', Bool.or_eq_false_iff] at hch
      simp only [plainEnds, hch.1.1, hch.1.2, hch.2, Bool.false_and, Bool.and_false, Bool.or_false]
    rw [List.cons_append, plainLength, hends, ih hword.2]
    rfl

/-- What a cursor shows in front of the end of a word. -/
theorem peek_of_closes {c : Cursor} {inFlow : Bool} {blank more : List Char}
    (hc : c.rest = blank ++ more) (hblank : blank.all isLayout = true)
    (hmore : closes inFlow more = true) :
    isLayout c.peek = true ∨ c.peek ∈ [',', ']', '\x7d', endMark] := by
  cases blank with
  | nil =>
    cases more with
    | nil => exact .inr (by rw [Cursor.peek, hc]; decide)
    | cons ch cs =>
      simp only [closes, Bool.and_eq_true, Bool.or_eq_true, beq_iff_eq] at hmore
      rw [Cursor.peek_of_rest hc]
      obtain ⟨-, (rfl | rfl) | rfl⟩ := hmore <;> exact .inr (by decide)
  | cons ch cs =>
    rw [List.all_cons, Bool.and_eq_true] at hblank
    exact .inl (by rw [Cursor.peek_of_rest hc]; exact hblank.1)

/-- No document marker stands in front of the end of a word. -/
theorem atSeparator_of_closes {c : Cursor} {inFlow : Bool} {blank more : List Char}
    (hc : c.rest = blank ++ more) (hblank : blank.all isLayout = true)
    (hmore : closes inFlow more = true) : c.atSeparator = false := by
  have hpeek := peek_of_closes hc hblank hmore
  rw [← Bool.not_eq_true]
  intro hmark
  rw [Cursor.atSeparator, Bool.or_eq_true] at hmark
  rcases hmark with hmark | hmark <;> rw [Cursor.peek_of_atMarker hmark] at hpeek <;>
    exact absurd hpeek (by decide)

theorem isBreak_of_closes {inFlow : Bool} {more : List Char} (h : closes inFlow more = true) :
    isBreak (more.headD endMark) = false ∧ more.headD endMark ≠ ' ' ∧ more.head? ≠ some '\n' := by
  cases more with
  | nil => decide
  | cons ch cs =>
    simp only [closes, Bool.and_eq_true, Bool.or_eq_true, beq_iff_eq] at h
    obtain ⟨rfl, (rfl | rfl) | rfl⟩ := h <;> exact ⟨rfl, nofun, nofun⟩

/-- The line ends and spaces after a word are passed. -/
theorem plainBreaks_run {inFlow : Bool} {more : List Char} (hmore : closes inFlow more = true)
    (fuel : Nat) {c : Cursor} {blank : List Char} (hc : c.rest = blank ++ more)
    (hblank : blank.all isLayout = true) (hfuel : blank.length < fuel) :
    ∃ text, (plainBreaks fuel).run c = .ok (some text, c.skip blank.length) := by
  induction fuel generalizing c blank with
  | zero => omega
  | succ fuel ih =>
    obtain ⟨hbreak, hspace, hpair⟩ := isBreak_of_closes hmore
    rw [plainBreaks, run_bind_ok (peek_run c)]
    cases blank with
    | nil =>
      have hpeek : c.peek = more.headD endMark := by rw [Cursor.peek, hc]; rfl
      rw [hpeek, if_neg (by simpa using hspace), hbreak]
      exact ⟨"", rfl⟩
    | cons ch blank =>
      rw [List.all_cons, Bool.and_eq_true] at hblank
      rw [List.length_cons] at hfuel
      rw [Cursor.peek_of_rest hc]
      rcases eq_of_isLayout hblank.1 with rfl | hch
      · obtain ⟨text, htext⟩ := ih (c := c.skip 1) (by rw [Cursor.rest_skip, hc]; rfl) hblank.2
          (by omega)
        refine ⟨text, ?_⟩
        rw [if_pos (by rfl), run_bind_ok (skip_run 1 c), htext, Cursor.skip_skip, List.length_cons,
          Nat.add_comm 1]
      · obtain ⟨n, after, hlength, hle, hafter, hrest, hrun⟩ :=
          takeBreak_some hc hch hblank.2 hpair
        obtain ⟨text, htext⟩ := ih hrest hafter (by omega)
        have hspace : (ch == ' ') = false ∧ isBreak ch = true := by
          rcases hch with rfl | rfl <;> exact ⟨rfl, rfl⟩
        refine ⟨"\n" ++ text, ?_⟩
        rw [hspace.1, hspace.2, if_neg Bool.false_ne_true, if_pos rfl, run_bind_ok hrun,
          run_bind_ok (get_run _), atSeparator_of_closes hrest hafter hmore,
          if_neg Bool.false_ne_true, run_bind_ok htext, Cursor.skip_skip, hlength]
        rfl

/-- The space after a word is passed. -/
theorem plainGap_run {inFlow : Bool} {more : List Char} (hmore : closes inFlow more = true)
    {c : Cursor} {blank : List Char} (hc : c.rest = blank ++ more)
    (hblank : blank.all isLayout = true) :
    ∃ gap, plainGap.run c = .ok (gap, c.skip blank.length) := by
  obtain ⟨hbreak, hspace, hpair⟩ := isBreak_of_closes hmore
  obtain ⟨spaces, others, rfl, htake, hothers⟩ := spaces_of_layout hblank hspace
  have hrest : (c.skip spaces.length).rest = others ++ more := by
    rw [Cursor.rest_skip_append (hc.trans (List.append_assoc ..))]
  rw [List.all_append, Bool.and_eq_true] at hblank
  rw [plainGap, run_bind_ok (takeWhile_run _ c), hc, htake, run_bind_ok (peek_run _)]
  cases others with
  | nil =>
    have hpeek : (c.skip spaces.length).peek = more.headD endMark := by rw [Cursor.peek, hrest]; rfl
    rw [hpeek, hbreak, List.append_nil, if_neg Bool.false_ne_true]
    split <;> exact ⟨_, rfl⟩
  | cons ch others =>
    rw [List.all_cons, Bool.and_eq_true] at hblank
    have hch := hothers ch rfl
    obtain ⟨n, after, hlength, hle, hafter, hend, hrun⟩ :=
      takeBreak_some hrest hch hblank.2.2 hpair
    obtain ⟨text, htext⟩ := plainBreaks_run hmore
      (((c.skip spaces.length).skip n).rest.length + 1) hend hafter
      (by rw [hend, List.length_append]; omega)
    rw [Cursor.peek_of_rest hrest, if_pos (by rcases hch with rfl | rfl <;> rfl),
      run_bind_ok hrun, run_bind_ok (get_run _), atSeparator_of_closes hend hafter hmore,
      if_neg Bool.false_ne_true, run_bind_ok htext, Cursor.skip_skip, Cursor.skip_skip, hlength,
      List.length_append]
    dsimp only
    split
    · exact ⟨_, rfl⟩
    · split <;> exact ⟨_, rfl⟩

theorem take_run (n : Nat) (c : Cursor) :
    (take n).run c = .ok (String.ofList (c.rest.take n), c.skip n) := rfl

/-- A word is read with the space after it. -/
theorem plain_run {inFlow : Bool} {more : List Char} (hmore : closes inFlow more = true)
    {c : Cursor} {word blank : List Char} (hc : c.rest = word ++ (blank ++ more))
    (hword : word.all isPlainWord = true) (hblank : blank.all isLayout = true) (indent : Int)
    (fuel : Nat) :
    ∃ ended, (plain inFlow indent (fuel + 1)).run c =
      .ok ((String.ofList word, ended), c.skip (word.length + blank.length)) := by
  have hends : plainEnds inFlow (blank ++ more) = true := by
    cases blank with
    | nil => exact plainEnds_of_closes hmore
    | cons ch blank =>
      rw [List.all_cons, Bool.and_eq_true] at hblank
      exact plainEnds_of_layout hblank.1 inFlow _
  have hrest := Cursor.rest_skip_append hc
  obtain ⟨gap, hgap⟩ := plainGap_run hmore hrest hblank
  have hafter := Cursor.rest_skip_append hrest
  refine ⟨gap.lineEnded, ?_⟩
  rw [plain, run_bind_ok (get_run c), hc, plainLength_word hword hends, run_bind_ok (take_run _ c),
    hc, List.take_left, run_bind_ok hgap, run_bind_ok (get_run _), hafter,
    plainLength_of_plainEnds (plainEnds_of_closes hmore), Cursor.skip_skip]
  cases gap.text with
  | none => rfl
  | some space =>
    dsimp only
    rw [if_pos (by simp)]
    rfl

end Lex

end Yaml

end TreeScript
