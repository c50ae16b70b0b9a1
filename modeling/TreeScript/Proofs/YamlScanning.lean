import Mathlib
import TreeScript.Proofs.Runs
import TreeScript.Proofs.YamlLexing

/-!
# Scanning bracketed collections

The scanner cuts a text into tokens one by one (`Step`). `Scanned text tokens` says that wherever a
text stands between brackets or alone, it is cut into these tokens, with what is around it left for
later. This is closed under the ways in which lists and maps are written, so that the tokens of a
text follow from those of its parts.

A key has to be in one line with its colon, and the colon not too far from where the key starts:
otherwise the scanner has forgotten by then that a key may have started (`keyed`).
-/

namespace TreeScript.Yaml

open Yaml.Lex

/-- Whether a character starts a token and nothing else. -/
def opensToken (ch : Char) : Bool :=
  !isGap ch && ch != '#' && ch != '\ufeff' && ch != '%' && ch != '.'

/-- Whether a text is at its end or at the start of a token. -/
def startsToken : List Char → Bool
  | [] => true
  | ch :: _ => opensToken ch

/-- A state in which no block collection is open, no key is required and the text is not at its
end. -/
structure Scanner.Ready (s : Scanner) : Prop where
  /-- No block collection is open. -/
  indent : s.indent = -1
  /-- The end of the text is not reached. -/
  running : s.done = false
  /-- No key has to start anywhere. -/
  free : ∀ k ∈ s.keys, k.2.required = false

namespace Scan

variable {s t : Scanner}

theorem run_bind_ok {α β : Type} {x : Scan α} {f : α → Scan β} {a : α}
    (h : x.run.run s = (.ok a, t)) : (x >>= f).run.run s = (f a).run.run t := by
  rw [run_run_bind, h]

theorem get_run (s : Scanner) : (get : Scan Scanner).run.run s = (.ok s, s) := rfl

theorem lex_run {α : Type} {step : Lex α} {a : α} {c : Cursor}
    (h : step.run s.cursor = .ok (a, c)) :
    (lex step).run.run s = (.ok a, { s with cursor := c }) := by
  rw [lex, run_bind_ok (get_run s), h]
  rfl

theorem allowKey_run (allowed : Bool) (s : Scanner) :
    (allowKey allowed).run.run s = (.ok (), { s with keyAllowed := allowed }) := rfl

/-! ## Places of keys -/

theorem any_filter_eq_false {keys : List (Nat × KeyPlace)} (h : ∀ k ∈ keys, k.2.required = false)
    (test : Nat × KeyPlace → Bool) : ((keys.filter test).any fun k => k.2.required) = false := by
  rw [List.any_eq_false]
  intro k hk
  rw [h k (List.mem_filter.1 hk).1]
  exact Bool.false_ne_true

theorem dropStale_run (hs : s.Ready) :
    dropStale.run.run s =
      (.ok (), { s with keys := s.keys.filter fun k => !isStale s.cursor k.2 }) := by
  rw [dropStale, run_bind_ok (get_run s), List.partition_eq_filter_filter]
  dsimp only
  rw [any_filter_eq_false hs.free]
  rfl

/-- The places of keys outside the open brackets. -/
def outerKeys (s : Scanner) : List (Nat × KeyPlace) := s.keys.filter fun k => !(k.1 == s.flow)

theorem outerKeys_free (hs : s.Ready) : ∀ k ∈ outerKeys s, k.2.required = false :=
  fun k hk => hs.free k (List.mem_filter.1 hk).1

theorem dropKey_run (hs : s.Ready) :
    dropKey.run.run s = (.ok (), { s with keys := outerKeys s }) := by
  rw [dropKey, run_bind_ok (get_run s), List.partition_eq_filter_filter]
  dsimp only
  rw [any_filter_eq_false hs.free]
  rfl

/-- The place at which a key may start in a state. -/
def placeHere (s : Scanner) : KeyPlace :=
  ⟨s.tokens.size, false, s.cursor.index, s.cursor.line, s.cursor.column⟩

/-- The places after a key may have started here. -/
def keysHere (s : Scanner) : List (Nat × KeyPlace) :=
  if s.keyAllowed then (s.keys.filter fun k => !(k.1 == s.flow)) ++ [(s.flow, placeHere s)]
  else s.keys

theorem saveKey_run (hs : s.Ready) :
    saveKey.run.run s = (.ok (), { s with keys := keysHere s }) := by
  have hcolumn : (s.indent == (s.cursor.column : Int)) = false := by
    rw [hs.indent, beq_eq_false_iff_ne]
    omega
  rw [saveKey, run_bind_ok (get_run s), keysHere]
  split
  · rw [run_bind_ok (dropKey_run hs)]
    dsimp only
    rw [hcolumn, Bool.and_false]
    rfl
  · rfl

theorem keysHere_free (hs : s.Ready) : ∀ k ∈ keysHere s, k.2.required = false := by
  intro k hk
  unfold keysHere at hk
  split at hk
  · rw [List.mem_append, List.mem_singleton] at hk
    rcases hk with hk | rfl
    · exact outerKeys_free hs k hk
    · rfl
  · exact hs.free k hk

/-! ## The space before a token -/

theorem startsToken_head {more : List Char} (h : startsToken more = true) :
    isBreak (more.headD endMark) = false ∧ more.headD endMark ≠ ' ' ∧
      more.headD endMark ≠ '#' ∧ more.headD endMark ≠ '\ufeff' ∧ more.head? ≠ some '\n' := by
  cases more with
  | nil => decide
  | cons ch cs =>
    simp only [startsToken, opensToken, isGap, isSpaceOrEnd, isBreakOrEnd, Bool.and_eq_true,
      Bool.not_eq_true', Bool.or_eq_false_iff, bne_iff_ne, beq_eq_false_iff_ne] at h
    obtain ⟨⟨⟨⟨⟨-, hspace, hbreak, -⟩, hcomment⟩, hmark⟩, -⟩, -⟩ := h
    refine ⟨hbreak, hspace, hcomment, hmark, ?_⟩
    rintro ⟨⟩
    cases hbreak

theorem skipSpaces_run {c : Cursor} {spaces : List Char}
    (h : c.rest.takeWhile (· == ' ') = spaces) :
    skipSpaces.run c = .ok ((), c.skip spaces.length) := by
  rw [← h]
  rfl

theorem skipComment_run {c : Cursor} (h : c.peek ≠ '#') : skipComment.run c = .ok ((), c) := by
  rw [skipComment, Lex.run_bind_ok (peek_run c), if_neg (by simpa using h)]
  rfl

/-- Spaces and line ends before a token are passed. -/
theorem toNextToken_run {more : List Char} (hmore : startsToken more = true) (fuel : Nat)
    {blank : List Char} (hs : s.cursor.rest = blank ++ more) (hblank : blank.all isLayout = true)
    (hfuel : blank.length < fuel) :
    ∃ allowed, (s.keyAllowed = true → allowed = true) ∧ (toNextToken fuel).run.run s =
      (.ok (), { s with cursor := s.cursor.skip blank.length, keyAllowed := allowed }) := by
  obtain ⟨hbreak, hspace, hcomment, -, hpair⟩ := startsToken_head hmore
  induction fuel generalizing s blank with
  | zero => omega
  | succ fuel ih =>
    obtain ⟨spaces, others, rfl, htake, hothers⟩ := spaces_of_layout hblank hspace
    rw [List.all_append, Bool.and_eq_true] at hblank
    have hrest : (s.cursor.skip spaces.length).rest = others ++ more :=
      Cursor.rest_skip_append (hs.trans (List.append_assoc ..))
    have hpeek : (s.cursor.skip spaces.length).peek ≠ '#' := by
      rw [Cursor.peek, hrest]
      cases others with
      | nil => exact hcomment
      | cons ch others =>
        rcases hothers ch rfl with rfl | rfl <;> rintro ⟨⟩
    rw [toNextToken, run_bind_ok (lex_run (skipSpaces_run (by rw [hs, htake]))),
      run_bind_ok (lex_run (skipComment_run hpeek))]
    cases others with
    | nil =>
      refine ⟨s.keyAllowed, id, ?_⟩
      rw [List.append_nil, run_bind_ok
        (lex_run (takeBreak_none (by rw [Cursor.peek, hrest]; exact hbreak)))]
      rfl
    | cons ch others =>
      rw [List.all_cons, Bool.and_eq_true] at hblank
      obtain ⟨n, after, hlength, hle, hafter, hend, hrun⟩ :=
        takeBreak_some hrest (hothers ch rfl) hblank.2.2 hpair
      rw [List.length_append, List.length_cons] at hfuel
      have hplace : ((s.cursor.skip spaces.length).skip n).skip after.length =
          s.cursor.skip (spaces ++ ch :: others).length := by
        rw [Cursor.skip_skip, Cursor.skip_skip, hlength, List.length_append]
      rw [run_bind_ok (lex_run hrun), if_neg (by decide), run_bind_ok (get_run _), ← hplace]
      split
      · rw [run_bind_ok (allowKey_run true _)]
        obtain ⟨allowed, hallowed, hnext⟩ := ih
          (s := { s with cursor := (s.cursor.skip spaces.length).skip n, keyAllowed := true })
          hend hafter (by omega)
        exact ⟨allowed, fun _ => hallowed rfl, hnext⟩
      · exact ih (s := { s with cursor := (s.cursor.skip spaces.length).skip n }) hend hafter
          (by omega)

/-! ## Tokens -/

/-- The token that starts with a character in a state, if it is no marker of a document and no
directive. -/
def scanBy (s : Scanner) (ch : Char) : Scan Unit :=
  let c := s.cursor
  let inFlow := s.flow != 0
  let gapNext := isGap (c.peekAt 1)
  if ch == '[' then scanOpening .flowSequenceStart
  else if ch == '\x7b' then scanOpening .flowMappingStart
  else if ch == ']' then scanClosing .flowSequenceEnd
  else if ch == '\x7d' then scanClosing .flowMappingEnd
  else if ch == ',' then scanComma
  else if ch == '-' && gapNext then scanDash
  else if ch == '?' && (inFlow || gapNext) then scanQuestion
  else if ch == ':' && (inFlow || gapNext) then scanColon
  else if ch == '*' then scanKeyLike (Token.alias <$> Lex.anchorName)
  else if ch == '&' then scanKeyLike (Token.anchor <$> Lex.anchorName)
  else if ch == '!' then scanKeyLike Lex.tag
  else if ch == '|' && !inFlow then scanBlock false
  else if ch == '>' && !inFlow then scanBlock true
  else if ch == '\'' || ch == '"' then
    scanKeyLike ((Token.scalar · false) <$> Lex.quoted ch)
  else if plainStarts inFlow c then scanPlain
  else fail

/-- The token at the cursor of a state. -/
def scanAt (s : Scanner) : Scan Unit :=
  let c := s.cursor
  match c.peek with
  | '\x00' => scanEnd
  | ch =>
    if ch == '%' && c.column == 0 then scanDirective
    else if c.column == 0 && c.atMarker '-' then scanMarker .documentStart
    else if c.column == 0 && c.atMarker '.' then scanMarker .documentEnd
    else scanBy s ch

theorem scanAt_eq {ch : Char} {cs : List Char} (hc : s.cursor.rest = ch :: cs)
    (hch : opensToken ch = true) (hdash : ch = '-' → cs.head? ≠ some '-') :
    scanAt s = scanBy s ch := by
  have hpeek := Cursor.peek_of_rest hc
  simp only [opensToken, Bool.and_eq_true, Bool.not_eq_true', bne_iff_ne] at hch
  obtain ⟨⟨⟨⟨hgap, -⟩, -⟩, hpercent⟩, hdot⟩ := hch
  have hend : ch ≠ '\x00' := by
    rintro rfl
    cases hgap
  have hmarks : s.cursor.atMarker '-' = false ∧ s.cursor.atMarker '.' = false := by
    constructor
    · rw [← Bool.not_eq_true]
      intro hmark
      have hfirst : ch = '-' := hpeek.symm.trans (Cursor.peek_of_atMarker hmark)
      apply hdash hfirst
      rw [Cursor.atMarker, Bool.and_eq_true, beq_iff_eq, hc] at hmark
      have htail := congrArg List.head? (List.cons.inj hmark.1).2
      rwa [List.head?_take, if_neg (by decide)] at htail
    · rw [← Bool.not_eq_true]
      intro hmark
      exact hdot (hpeek.symm.trans (Cursor.peek_of_atMarker hmark))
  have hpercent' : (ch == '%') = false := beq_eq_false_iff_ne.2 hpercent
  unfold scanAt
  dsimp only
  split
  · rename_i hzero
    exact absurd (hpeek.symm.trans hzero) hend
  · rw [hpeek, hpercent', hmarks.1, hmarks.2, Bool.false_and, Bool.and_false]
    rfl

/-- The state in which a token is reached after some space. -/
def arrived (s : Scanner) (n : Nat) (allowed : Bool) : Scanner :=
  { s with
    cursor := s.cursor.skip n
    keyAllowed := allowed
    keys := s.keys.filter fun k => !isStale (s.cursor.skip n) k.2 }

theorem arrived_ready (hs : s.Ready) (n : Nat) (allowed : Bool) : (arrived s n allowed).Ready :=
  ⟨hs.indent, hs.running, fun k hk => hs.free k (List.mem_filter.1 hk).1⟩

theorem unwindTo_run {column : Int} (hs : s.Ready) (hcolumn : -1 ≤ column) :
    (unwindTo column).run.run s = (.ok (), s) := by
  have hunwind : unwind column (s.indents.length + 1) s = s := by
    rw [unwind, hs.indent, if_neg]
    simp only [Bool.and_eq_true, decide_eq_true_eq, not_and]
    omega
  show (Except.ok (), unwind column (s.indents.length + 1) s) = _
  rw [hunwind]

/-- The scanner passes the space before a token, and scans the token. -/
theorem scanToken_run (hs : s.Ready) {blank more : List Char} (hc : s.cursor.rest = blank ++ more)
    (hblank : blank.all isLayout = true) (hmore : startsToken more = true) :
    ∃ allowed, (s.keyAllowed = true → allowed = true) ∧
      scanToken.run.run s = (scanAt (arrived s blank.length allowed)).run.run
        (arrived s blank.length allowed) := by
  obtain ⟨allowed, hallowed, hnext⟩ := toNextToken_run hmore (s.cursor.rest.length + 1) hc
    hblank (by rw [hc, List.length_append]; omega)
  refine ⟨allowed, hallowed, ?_⟩
  have hmark : (s.cursor.peek == '\ufeff') = false := by
    rw [Cursor.peek, hc, beq_eq_false_iff_ne]
    cases blank with
    | nil => exact (startsToken_head hmore).2.2.2.1
    | cons ch blank =>
      rw [List.all_cons, Bool.and_eq_true] at hblank
      rintro rfl
      cases hblank.1
  have hstale : dropStale.run.run
      { s with cursor := s.cursor.skip blank.length, keyAllowed := allowed } =
        (.ok (), arrived s blank.length allowed) :=
    dropStale_run ⟨hs.indent, hs.running, hs.free⟩
  rw [scanToken, run_bind_ok (get_run s), hmark, Bool.and_false]
  show (toNextToken (s.cursor.rest.length + 1) >>= _).run.run s = _
  rw [run_bind_ok hnext, run_bind_ok hstale, run_bind_ok (get_run _),
    run_bind_ok (unwindTo_run (arrived_ready hs _ _) (by omega)), run_bind_ok (get_run _)]
  rfl

/-- The scanner goes on to the next token of a text. -/
def Step (s t : Scanner) : Prop :=
  scanToken.run.run s = (.ok (), t) ∧ t.done = false ∧ t.cursor.rest.length < s.cursor.rest.length

/-- The scanner goes from one state to another and adds some tokens. -/
structure Reaches (s t : Scanner) (tokens : List Token) : Prop where
  /-- The steps. -/
  steps : Relation.ReflTransGen Step s t
  /-- The state is ready for the next token. -/
  ready : t.Ready
  /-- The tokens are those that are added. -/
  added : t.tokens.toList = s.tokens.toList ++ tokens

theorem Reaches.trans {u : Scanner} {tokens others : List Token} (h : Reaches s t tokens)
    (h' : Reaches t u others) : Reaches s u (tokens ++ others) :=
  ⟨h.steps.trans h'.steps, h'.ready, by rw [h'.added, h.added, List.append_assoc]⟩

theorem Reaches.single {tokens : List Token} (hrun : scanToken.run.run s = (.ok (), t))
    (ht : t.Ready) (hlt : t.cursor.rest.length < s.cursor.rest.length)
    (hadded : t.tokens.toList = s.tokens.toList ++ tokens) : Reaches s t tokens :=
  ⟨.single ⟨hrun, ht.running, hlt⟩, ht, hadded⟩

section

variable {blank cs : List Char} {ch : Char}

/-- The scanner passes the space before a character, and scans the token that starts with it. -/
theorem scanToken_by (hs : s.Ready) (hc : s.cursor.rest = blank ++ ch :: cs)
    (hblank : blank.all isLayout = true) (hch : opensToken ch = true)
    (hdash : ch = '-' → cs.head? ≠ some '-') :
    ∃ allowed, (s.keyAllowed = true → allowed = true) ∧
      (arrived s blank.length allowed).cursor.rest = ch :: cs ∧
      scanToken.run.run s = (scanBy (arrived s blank.length allowed) ch).run.run
        (arrived s blank.length allowed) := by
  obtain ⟨allowed, hallowed, hrun⟩ := scanToken_run hs hc hblank hch
  have hrest : (arrived s blank.length allowed).cursor.rest = ch :: cs := Cursor.rest_skip_append hc
  exact ⟨allowed, hallowed, hrest, by rw [hrun, scanAt_eq hrest hch hdash]⟩

theorem rest_skip_one {c : Cursor} (h : c.rest = ch :: cs) : (c.skip 1).rest = cs := by
  rw [Cursor.rest_skip, h]
  rfl

theorem length_lt_of_rest (hc : s.cursor.rest = blank ++ ch :: cs) (taken : List Char)
    {rest : List Char} (hrest : cs = taken ++ rest) : rest.length < s.cursor.rest.length := by
  rw [hc, hrest]
  simp only [List.length_append, List.length_cons]
  omega

/-- A token of one character is scanned. -/
theorem sign_reaches (hs : s.Ready) (hc : s.cursor.rest = blank ++ ch :: cs)
    (hblank : blank.all isLayout = true) (hch : opensToken ch = true) (hdash : ch ≠ '-')
    {token : Token} (after : Scanner → Scanner)
    (hscan : ∀ a : Scanner, a.Ready → (scanBy a ch).run.run a = (.ok (), after a) ∧
      (after a).Ready ∧ (after a).cursor = a.cursor.skip 1 ∧
      (after a).tokens = a.tokens.push token) :
    ∃ allowed, Reaches s (after (arrived s blank.length allowed)) [token] ∧
      (after (arrived s blank.length allowed)).cursor.rest = cs := by
  obtain ⟨allowed, -, hrest, hrun⟩ := scanToken_by hs hc hblank hch fun h => absurd h hdash
  obtain ⟨hscan, hready, hcursor, htokens⟩ :=
    hscan (arrived s blank.length allowed) (arrived_ready hs blank.length allowed)
  have hafter : (after (arrived s blank.length allowed)).cursor.rest = cs := by
    rw [hcursor, rest_skip_one hrest]
  refine ⟨allowed, .single (hrun.trans hscan) hready ?_ ?_, hafter⟩
  · rw [hafter]
    exact length_lt_of_rest hc [] rfl
  · rw [htokens, Array.toList_push]
    rfl

/-- The state after an opening bracket. -/
def opened (token : Token) (s : Scanner) : Scanner :=
  { s with
    cursor := s.cursor.skip 1
    tokens := s.tokens.push token
    flow := s.flow + 1
    keyAllowed := true
    keys := keysHere s }

theorem scanOpening_run (hs : s.Ready) (token : Token) :
    (scanOpening token).run.run s = (.ok (), opened token s) := by
  rw [scanOpening, run_bind_ok (saveKey_run hs)]
  rfl

/-- An opening bracket is scanned. -/
theorem opening_reaches (hs : s.Ready) (hc : s.cursor.rest = blank ++ ch :: cs)
    (hblank : blank.all isLayout = true) {token : Token}
    (hch : (ch, token) ∈ [('[', Token.flowSequenceStart), ('\x7b', .flowMappingStart)]) :
    ∃ t, Reaches s t [token] ∧ t.flow = s.flow + 1 ∧ t.keyAllowed = true ∧ t.cursor.rest = cs := by
  have hcases : opensToken ch = true ∧ ch ≠ '-' ∧ ∀ a, scanBy a ch = scanOpening token := by
    simp only [List.mem_cons, Prod.mk.injEq, List.not_mem_nil, or_false] at hch
    rcases hch with ⟨rfl, rfl⟩ | ⟨rfl, rfl⟩ <;> exact ⟨rfl, nofun, fun _ => rfl⟩
  obtain ⟨hopens, hdash, hscan⟩ := hcases
  obtain ⟨allowed, hreaches, hrest⟩ := sign_reaches hs hc hblank hopens hdash (opened token)
    fun a ha => ⟨by rw [hscan, scanOpening_run ha],
      ⟨ha.indent, ha.running, keysHere_free ha⟩, rfl, rfl⟩
  exact ⟨_, hreaches, rfl, rfl, hrest⟩

/-- The state after a closing bracket. -/
def closed (token : Token) (s : Scanner) : Scanner :=
  { s with
    cursor := s.cursor.skip 1
    tokens := s.tokens.push token
    flow := s.flow - 1
    keyAllowed := false
    keys := outerKeys s }

theorem scanClosing_run (hs : s.Ready) (token : Token) :
    (scanClosing token).run.run s = (.ok (), closed token s) := by
  rw [scanClosing, run_bind_ok (dropKey_run hs)]
  rfl

/-- A closing bracket is scanned. -/
theorem closing_reaches (hs : s.Ready) (hc : s.cursor.rest = blank ++ ch :: cs)
    (hblank : blank.all isLayout = true) {token : Token}
    (hch : (ch, token) ∈ [(']', Token.flowSequenceEnd), ('\x7d', .flowMappingEnd)]) :
    ∃ t, Reaches s t [token] ∧ t.flow = s.flow - 1 ∧ t.cursor.rest = cs := by
  have hcases : opensToken ch = true ∧ ch ≠ '-' ∧ ∀ a, scanBy a ch = scanClosing token := by
    simp only [List.mem_cons, Prod.mk.injEq, List.not_mem_nil, or_false] at hch
    rcases hch with ⟨rfl, rfl⟩ | ⟨rfl, rfl⟩ <;> exact ⟨rfl, nofun, fun _ => rfl⟩
  obtain ⟨hopens, hdash, hscan⟩ := hcases
  obtain ⟨allowed, hreaches, hrest⟩ := sign_reaches hs hc hblank hopens hdash (closed token)
    fun a ha => ⟨by rw [hscan, scanClosing_run ha],
      ⟨ha.indent, ha.running, outerKeys_free ha⟩, rfl, rfl⟩
  exact ⟨_, hreaches, rfl, hrest⟩

/-- The state after a comma. -/
def separated (s : Scanner) : Scanner :=
  { s with
    cursor := s.cursor.skip 1
    tokens := s.tokens.push .flowEntry
    keyAllowed := true
    keys := outerKeys s }

theorem scanComma_run (hs : s.Ready) : scanComma.run.run s = (.ok (), separated s) := by
  rw [scanComma, run_bind_ok (allowKey_run true s),
    run_bind_ok (dropKey_run (s := { s with keyAllowed := true }) ⟨hs.indent, hs.running, hs.free⟩)]
  rfl

/-- A comma is scanned. -/
theorem comma_reaches (hs : s.Ready) (hc : s.cursor.rest = blank ++ ',' :: cs)
    (hblank : blank.all isLayout = true) :
    ∃ t, Reaches s t [.flowEntry] ∧ t.flow = s.flow ∧ t.keyAllowed = true ∧ t.cursor.rest = cs := by
  obtain ⟨allowed, hreaches, hrest⟩ := sign_reaches hs hc hblank rfl nofun separated
    fun a ha => ⟨scanComma_run ha, ⟨ha.indent, ha.running, outerKeys_free ha⟩, rfl, rfl⟩
  exact ⟨_, hreaches, rfl, rfl, hrest⟩

/-- The state after a token that can be a key. -/
def keyed (s : Scanner) (token : Token) (c : Cursor) : Scanner :=
  { s with
    cursor := c
    tokens := s.tokens.push token
    keyAllowed := false
    keys := keysHere s }

theorem scanKeyLike_run (hs : s.Ready) {step : Lex Token} {token : Token} {c : Cursor}
    (h : step.run s.cursor = .ok (token, c)) :
    (scanKeyLike step).run.run s = (.ok (), keyed s token c) := by
  rw [scanKeyLike, run_bind_ok (saveKey_run hs), run_bind_ok (allowKey_run false _),
    run_bind_ok (lex_run (s := { s with keyAllowed := false, keys := keysHere s }) h)]
  rfl

/-- A text in double quotes is scanned. -/
theorem quoted_run {body chars : List Char} (hbody : QuotedBody body chars) (hs : s.Ready)
    (hc : s.cursor.rest = blank ++ '"' :: (body ++ '"' :: cs))
    (hblank : blank.all isLayout = true) :
    ∃ allowed, (s.keyAllowed = true → allowed = true) ∧ ∃ t,
      t = keyed (arrived s blank.length allowed) (.scalar (String.ofList chars) false)
        (s.cursor.skip (blank.length + (body.length + 2))) ∧
      Reaches s t [.scalar (String.ofList chars) false] ∧ t.cursor.rest = cs := by
  obtain ⟨allowed, hallowed, hrest, hrun⟩ := scanToken_by hs hc hblank rfl nofun
  have hready := arrived_ready hs blank.length allowed
  have hlex : ((Token.scalar · false) <$> Lex.quoted '"').run
      (arrived s blank.length allowed).cursor =
      .ok (.scalar (String.ofList chars) false,
        s.cursor.skip (blank.length + (body.length + 2))) := by
    rw [StateT.run_map, hbody.quoted hrest]
    show Except.ok (_, (s.cursor.skip blank.length).skip _) = _
    rw [Cursor.skip_skip]
  have hafter : (s.cursor.skip (blank.length + (body.length + 2))).rest = cs := by
    have hall : s.cursor.rest = (blank ++ '"' :: (body ++ ['"'])) ++ cs := by
      rw [hc]
      simp
    rw [← Cursor.rest_skip_append hall]
    simp [Nat.add_assoc]
  refine ⟨allowed, hallowed, _, rfl, .single (hrun.trans (scanKeyLike_run hready hlex))
    ⟨hs.indent, hs.running, keysHere_free hready⟩ ?_ ?_, hafter⟩
  · show (s.cursor.skip _).rest.length < _
    rw [hafter]
    exact length_lt_of_rest hc (body ++ ['"']) (by simp)
  · exact Array.toList_push

/-- The state after the colon of a key. -/
def valued (place : KeyPlace) (s : Scanner) : Scanner :=
  { s with
    cursor := s.cursor.skip 1
    tokens := (s.tokens.insertIdxIfInBounds place.tokenIndex .key).push .value
    keyAllowed := false
    keys := s.keys.filter fun k => k.1 != s.flow }

theorem scanColon_run (hflow : s.flow ≠ 0) {level : Nat} {place : KeyPlace}
    (hplace : (s.keys.find? fun k => k.1 == s.flow) = some (level, place)) :
    scanColon.run.run s = (.ok (), valued place s) := by
  have hflow' : (s.flow == 0) = false := beq_eq_false_iff_ne.2 hflow
  rw [scanColon, run_bind_ok (get_run s), hplace]
  dsimp only
  rw [hflow']
  rfl

theorem insertIdx_length (xs ys : List Token) (token : Token) :
    (xs ++ ys).insertIdx xs.length token = xs ++ token :: ys := by
  induction xs with
  | nil => rfl
  | cons x xs ih => rw [List.cons_append, List.length_cons, List.insertIdx_succ_cons, ih]; rfl

/-- The tokens of a key: it is known to be one only at the colon. -/
theorem toList_insertIdx_push (tokens : Array Token) (text token : Token) :
    ((tokens.push text).insertIdxIfInBounds tokens.size token).toList =
      tokens.toList ++ [token, text] := by
  rw [Array.insertIdxIfInBounds, dif_pos (by rw [Array.size_push]; omega), Array.toList_insertIdx,
    Array.toList_push, ← Array.length_toList, insertIdx_length]

/-- The place at which a key starts is still known at its colon. -/
theorem isStale_key {body chars spaces : List Char} (hbody : QuotedBody body chars)
    (hspaces : spaces.all (· == ' ') = true) (hlength : body.length + 2 + spaces.length ≤ 1024)
    (hc : s.cursor.rest = '"' :: (body ++ '"' :: (spaces ++ cs))) :
    isStale (s.cursor.skip (body.length + 2 + spaces.length)) (placeHere s) = false := by
  have hc' : s.cursor.rest = '"' :: (body ++ '"' :: spaces) ++ cs := by
    rw [hc]
    simp
  have hlengths : ('"' :: (body ++ '"' :: spaces)).length = body.length + 2 + spaces.length := by
    simp only [List.length_cons, List.length_append]
    omega
  have hline : ∀ ch ∈ '"' :: (body ++ '"' :: spaces), isBreak ch = false := by
    refine List.forall_mem_cons.2 ⟨rfl, fun ch hch => ?_⟩
    rcases List.mem_append.1 hch with hch | hch
    · exact hbody.inLine ch hch
    · rcases List.mem_cons.1 hch with rfl | hch
      · rfl
      · rw [beq_iff_eq.1 (List.all_eq_true.1 hspaces ch hch)]
        rfl
  obtain ⟨hsame, hindex⟩ := Cursor.skip_inLine hc' hline
  rw [hlengths] at hsame hindex
  rw [isStale, hsame, hindex, Bool.or_eq_false_iff]
  refine ⟨?_, ?_⟩
  · show (s.cursor.line != s.cursor.line) = false
    rw [bne_self_eq_false]
  · show decide (s.cursor.index + _ - s.cursor.index > 1024) = false
    rw [decide_eq_false_iff_not]
    omega

/-- The place that was kept last inside the open brackets is found there if it is kept still. -/
theorem find?_outerKeys_append {place : KeyPlace} {keep : Nat × KeyPlace → Bool}
    (hkeep : keep (s.flow, place) = true) :
    (((outerKeys s ++ [(s.flow, place)]).filter keep).find? fun k => k.1 == s.flow) =
      some (s.flow, place) := by
  have houter : ((outerKeys s).filter keep).find? (fun k => k.1 == s.flow) = none := by
    refine List.find?_eq_none.2 fun k hk => ?_
    have hlevel := (List.mem_filter.1 (List.mem_filter.1 hk).1).2
    rw [Bool.not_eq_true'] at hlevel
    exact Bool.eq_false_iff.1 hlevel
  rw [List.filter_append, List.find?_append, houter, List.filter_cons_of_pos hkeep]
  simp

/-- A key in quotes and its colon are scanned if they are in one line and not too long. -/
theorem key_reaches {body chars spaces : List Char} (hbody : QuotedBody body chars) (hs : s.Ready)
    (hallowed : s.keyAllowed = true) (hflow : s.flow ≠ 0)
    (hc : s.cursor.rest = blank ++ '"' :: (body ++ '"' :: (spaces ++ ':' :: cs)))
    (hblank : blank.all isLayout = true) (hspaces : spaces.all (· == ' ') = true)
    (hlength : body.length + 2 + spaces.length ≤ 1024) :
    ∃ t, Reaches s t [.key, .scalar (String.ofList chars) false, .value] ∧ t.flow = s.flow ∧
      t.cursor.rest = cs := by
  obtain ⟨allowed, hallowed', t, ht, hquoted, hrest⟩ := quoted_run hbody hs hc hblank
  obtain rfl : allowed = true := hallowed' hallowed
  have hlayout : spaces.all isLayout = true := by
    rw [List.all_eq_true] at hspaces ⊢
    intro ch hch
    rw [beq_iff_eq.1 (hspaces ch hch)]
    rfl
  obtain ⟨allowed', -, hcolon, hrun⟩ := scanToken_by hquoted.ready hrest hlayout rfl nofun
  have hcursor : t.cursor.skip spaces.length =
      (arrived s blank.length true).cursor.skip (body.length + 2 + spaces.length) := by
    rw [ht]
    show (s.cursor.skip (blank.length + (body.length + 2))).skip spaces.length =
      (s.cursor.skip blank.length).skip (body.length + 2 + spaces.length)
    rw [Cursor.skip_skip, Cursor.skip_skip, Nat.add_assoc]
  -- the place that was noted before the quotes is still live at the colon
  have hlive : isStale (t.cursor.skip spaces.length) (placeHere (arrived s blank.length true)) =
      false := by
    rw [hcursor]
    exact isStale_key hbody hspaces hlength (Cursor.rest_skip_append hc)
  -- so the colon finds it
  have hplace : ((arrived t spaces.length allowed').keys.find? fun k => k.1 == s.flow) =
      some (s.flow, placeHere (arrived s blank.length true)) := by
    have hkeys : t.keys = outerKeys (arrived s blank.length true) ++
        [(s.flow, placeHere (arrived s blank.length true))] := by
      rw [ht]
      rfl
    show ((t.keys.filter fun k => !isStale (t.cursor.skip spaces.length) k.2).find? _) = _
    rw [hkeys]
    refine find?_outerKeys_append (s := arrived s blank.length true) ?_
    rw [hlive]
    rfl
  have hflow' : (arrived t spaces.length allowed').flow = s.flow := by
    rw [ht]
    rfl
  have hscan : scanBy (arrived t spaces.length allowed') ':' = scanColon := by
    unfold scanBy
    rw [hflow', bne_iff_ne.2 hflow]
    rfl
  rw [hscan, scanColon_run (by rwa [hflow']) (by rw [hflow']; exact hplace)] at hrun
  have hafter := rest_skip_one hcolon
  refine ⟨_, ⟨hquoted.steps.tail ⟨hrun, ?_, ?_⟩, ⟨?_, ?_, ?_⟩, ?_⟩, hflow', hafter⟩
  · exact hquoted.ready.running
  · show ((arrived t spaces.length allowed').cursor.skip 1).rest.length < _
    rw [hafter]
    exact length_lt_of_rest hrest [] rfl
  · exact hquoted.ready.indent
  · exact hquoted.ready.running
  · exact fun k hk =>
      (arrived_ready hquoted.ready spaces.length allowed').free k (List.mem_filter.1 hk).1
  -- the key is put before the scalar, which is already among the tokens
  · have htokens : t.tokens = s.tokens.push (.scalar (String.ofList chars) false) := by
      rw [ht]
      rfl
    show ((t.tokens.insertIdxIfInBounds s.tokens.size .key).push .value).toList = _
    rw [htokens, Array.toList_push, toList_insertIdx_push, List.append_assoc]
    rfl

/-- The state after a word. -/
def worded (s : Scanner) (word : String) (n : Nat) (ended : Bool) : Scanner :=
  { s with
    cursor := s.cursor.skip n
    tokens := s.tokens.push (.scalar word true)
    keyAllowed := ended
    keys := keysHere s }

theorem scanPlain_run (hs : s.Ready) {word after more : List Char}
    (hc : s.cursor.rest = word ++ (after ++ more)) (hword : word.all isPlainWord = true)
    (hafter : after.all isLayout = true) (hmore : closes (s.flow != 0) more = true) :
    ∃ ended, scanPlain.run.run s =
      (.ok (), worded s (String.ofList word) (word.length + after.length) ended) := by
  obtain ⟨ended, hplain⟩ := plain_run hmore hc hword hafter (s.indent + 1) s.cursor.rest.length
  refine ⟨ended, ?_⟩
  rw [scanPlain, run_bind_ok (saveKey_run hs), run_bind_ok (allowKey_run false _),
    run_bind_ok (get_run _),
    run_bind_ok (lex_run (s := { s with keyAllowed := false, keys := keysHere s }) hplain)]
  cases ended <;> rfl

theorem isGap_alphanum (hch : ch.isAlphanum = true) : isGap ch = false := by
  have hne (x : Char) (hx : x.isAlphanum = false) : (ch == x) = false := by
    rw [beq_eq_false_iff_ne]
    rintro rfl
    rw [hx] at hch
    cases hch
  simp only [isGap, isSpaceOrEnd, isBreakOrEnd, isBreak, endMark, hne '\t' rfl, hne ' ' rfl,
    hne '\n' rfl, hne '\r' rfl, hne '\x85' rfl, hne '\u2028' rfl, hne '\u2029' rfl, hne '\x00' rfl,
    Bool.or_false]

/-- A letter or a digit starts a word. -/
theorem scanBy_alphanum (hc : s.cursor.rest = ch :: cs) (hch : ch.isAlphanum = true) :
    opensToken ch = true ∧ ch ≠ '-' ∧ scanBy s ch = scanPlain := by
  have hgap := isGap_alphanum hch
  have hne (x : Char) (hx : x.isAlphanum = false) : ch ≠ x := by
    rintro rfl
    rw [hx] at hch
    cases hch
  have hbeq (x : Char) (hx : x.isAlphanum = false) : (ch == x) = false :=
    beq_eq_false_iff_ne.2 (hne x hx)
  refine ⟨?_, hne '-' rfl, ?_⟩
  · simp only [opensToken, hgap, bne, hbeq '#' rfl, hbeq '\ufeff' rfl, hbeq '%' rfl, hbeq '.' rfl]
    rfl
  · have hsigns : ("-?:,[]\x7b\x7d#&*!|>'\"%@".toList.contains ch) = false := by
      rw [← Bool.not_eq_true, List.contains_iff_mem]
      intro hmem
      have hall : ("-?:,[]\x7b\x7d#&*!|>'\"%@".toList.all fun x => !x.isAlphanum) = true := by
        decide
      have hnone := List.all_eq_true.1 hall ch hmem
      rw [hch] at hnone
      cases hnone
    have hplain : plainStarts (s.flow != 0) s.cursor = true := by
      simp only [plainStarts, Cursor.peek_of_rest hc, hgap, hsigns, hbeq '\x60' rfl, Bool.or_false,
        Bool.not_false, Bool.true_or]
    simp only [scanBy, hbeq '[' rfl, hbeq '\x7b' rfl, hbeq ']' rfl, hbeq '\x7d' rfl, hbeq ',' rfl,
      hbeq '-' rfl, hbeq '?' rfl, hbeq ':' rfl, hbeq '*' rfl, hbeq '&' rfl, hbeq '!' rfl,
      hbeq '|' rfl, hbeq '>' rfl, hbeq '\'' rfl, hbeq '"' rfl, Bool.false_and, Bool.or_false,
      hplain,
      Bool.false_eq_true, if_false, if_true]

/-- A minus before a digit starts a word. -/
theorem scanBy_minus {digit : Char} (hc : s.cursor.rest = '-' :: digit :: cs)
    (hdigit : digit.isAlphanum = true) : scanBy s '-' = scanPlain := by
  have hgap : isGap (s.cursor.peekAt 1) = false := by
    rw [Cursor.peekAt, hc]
    exact isGap_alphanum hdigit
  have hplain : plainStarts (s.flow != 0) s.cursor = true := by
    rw [plainStarts, Cursor.peek_of_rest hc, hgap]
    rfl
  unfold scanBy
  dsimp only
  rw [hgap, hplain]
  rfl

/-- Whether a text starts like a word: with a letter or a digit, perhaps after a minus. -/
def startsWord : List Char → Bool
  | '-' :: ch :: _ => ch.isAlphanum
  | ch :: _ => ch.isAlphanum
  | [] => false

/-- A word is scanned, with the space after it. -/
theorem word_reaches (hs : s.Ready) {word after more : List Char}
    (hc : s.cursor.rest = blank ++ (word ++ (after ++ more))) (hblank : blank.all isLayout = true)
    (hstart : startsWord word = true) (hword : word.all isPlainWord = true)
    (hafter : after.all isLayout = true) (hmore : closes (s.flow != 0) more = true) :
    ∃ t, Reaches s t [.scalar (String.ofList word) true] ∧ t.flow = s.flow ∧
      t.cursor.rest = more := by
  have hfirst : ∃ ch tail, word = ch :: tail ∧ opensToken ch = true ∧
      (ch = '-' → (tail ++ (after ++ more)).head? ≠ some '-') ∧
      ∀ a : Scanner, a.cursor.rest = word ++ (after ++ more) → scanBy a ch = scanPlain := by
    unfold startsWord at hstart
    split at hstart
    · rename_i digit tail
      refine ⟨'-', digit :: tail, rfl, rfl, fun _ hhead => ?_, fun a ha => scanBy_minus ha hstart⟩
      obtain rfl : digit = '-' := Option.some.inj hhead
      cases hstart
    · rename_i ch tail _
      refine ⟨ch, tail, rfl,
        (scanBy_alphanum (s := { cursor := ⟨ch :: tail, 0, 0, 0⟩ }) rfl hstart).1,
        fun hdash => ?_, fun a ha => (scanBy_alphanum ha hstart).2.2⟩
      subst hdash
      cases hstart
    · cases hstart
  obtain ⟨ch, tail, rfl, hopens, hdash, hscan⟩ := hfirst
  obtain ⟨allowed, -, hrest, hrun⟩ := scanToken_by hs hc hblank hopens hdash
  have hready := arrived_ready hs blank.length allowed
  obtain ⟨ended, hplain⟩ := scanPlain_run hready hrest hword hafter hmore
  have hend : ((arrived s blank.length allowed).cursor.skip
      ((ch :: tail).length + after.length)).rest = more := by
    rw [← Cursor.skip_skip, Cursor.rest_skip_append (Cursor.rest_skip_append hrest)]
  rw [hscan _ hrest, hplain] at hrun
  refine ⟨_, .single hrun ⟨hs.indent, hs.running, keysHere_free hready⟩ ?_ ?_, rfl, hend⟩
  · show ((arrived s blank.length allowed).cursor.skip _).rest.length < _
    rw [hend]
    exact length_lt_of_rest hc (tail ++ after) (by simp)
  · exact Array.toList_push

end

/-! ## Texts -/

/-- What may come after a value: space, and then the end of the text or a sign that ends words
between brackets. -/
def Follows (flow : Nat) (rest : List Char) : Prop :=
  ∃ blank more, rest = blank ++ more ∧ blank.all isLayout = true ∧ closes (flow != 0) more = true

/-- The scanner cuts a text into tokens, wherever it stands. Space after the text may be passed with
it. -/
def Scanned (text : List Char) (tokens : List Token) : Prop :=
  ∀ {s : Scanner} {blank rest : List Char}, s.Ready → blank.all isLayout = true →
    s.cursor.rest = blank ++ (text ++ rest) → Follows s.flow rest →
    ∃ t passed, Reaches s t tokens ∧ t.flow = s.flow ∧ passed.all isLayout = true ∧
      rest = passed ++ t.cursor.rest

/-- The scanner cuts a text into tokens between brackets, where a key may start. -/
def ScannedPart (text : List Char) (tokens : List Token) : Prop :=
  ∀ {s : Scanner} {blank rest : List Char}, s.Ready → s.keyAllowed = true → s.flow ≠ 0 →
    blank.all isLayout = true → s.cursor.rest = blank ++ (text ++ rest) → Follows s.flow rest →
    ∃ t passed, Reaches s t tokens ∧ t.flow = s.flow ∧ passed.all isLayout = true ∧
      rest = passed ++ t.cursor.rest

/-- The scanner cuts a text up to a closing bracket into tokens. -/
def ScannedTail (text : List Char) (tokens : List Token) : Prop :=
  ∀ {s : Scanner} {blank rest : List Char} {flow : Nat}, s.Ready → s.keyAllowed = true →
    s.flow = flow + 1 → blank.all isLayout = true → s.cursor.rest = blank ++ (text ++ rest) →
    ∃ t, Reaches s t tokens ∧ t.flow = flow ∧ t.cursor.rest = rest

theorem Scanned.word {word : List Char} (hstart : startsWord word = true)
    (hword : word.all isPlainWord = true) : Scanned word [.scalar (String.ofList word) true] := by
  rintro s blank rest hs hblank hc ⟨after, more, rfl, hafter, hmore⟩
  obtain ⟨t, hreaches, hflow, hrest⟩ := word_reaches hs hc hblank hstart hword hafter hmore
  exact ⟨t, after, hreaches, hflow, hafter, by rw [hrest]⟩

theorem Scanned.quoted {body chars : List Char} (h : QuotedBody body chars) :
    Scanned ('"' :: (body ++ ['"'])) [.scalar (String.ofList chars) false] := by
  intro s blank rest hs hblank hc _
  have hc' : s.cursor.rest = blank ++ '"' :: (body ++ '"' :: rest) := by
    rw [hc]
    simp
  obtain ⟨allowed, -, t, ht, hreaches, hrest⟩ := quoted_run h hs hc' hblank
  exact ⟨t, [], hreaches, by rw [ht]; rfl, rfl, by rw [hrest]; rfl⟩

theorem ScannedPart.of_scanned {text : List Char} {tokens : List Token} (h : Scanned text tokens) :
    ScannedPart text tokens :=
  fun hs _ _ hblank hc hrest => h hs hblank hc hrest

theorem ScannedPart.entry {body chars spaces gap text : List Char} {tokens : List Token}
    (hbody : QuotedBody body chars) (hspaces : spaces.all (· == ' ') = true)
    (hlength : body.length + 2 + spaces.length ≤ 1024) (hgap : gap.all isLayout = true)
    (h : Scanned text tokens) :
    ScannedPart ('"' :: (body ++ '"' :: (spaces ++ ':' :: (gap ++ text))))
      (.key :: .scalar (String.ofList chars) false :: .value :: tokens) := by
  intro s blank rest hs hallowed hflow hblank hc hrest
  have hc' : s.cursor.rest =
      blank ++ '"' :: (body ++ '"' :: (spaces ++ ':' :: (gap ++ (text ++ rest)))) := by
    rw [hc]
    simp
  obtain ⟨t, hkey, hflow', hafter⟩ :=
    key_reaches hbody hs hallowed hflow hc' hblank hspaces hlength
  obtain ⟨u, passed, hvalue, hflow'', hpassed, hend⟩ :=
    h hkey.ready hgap hafter (by rw [hflow']; exact hrest)
  exact ⟨u, passed, hkey.trans hvalue, hflow''.trans hflow', hpassed, hend⟩

/-- What is left in front of a sign after some space has been passed. -/
theorem layout_before {passed gap rest rest' : List Char} {ch : Char} (hch : isLayout ch = false)
    (hpassed : passed.all isLayout = true) (hgap : gap.all isLayout = true)
    (h : gap ++ ch :: rest = passed ++ rest') :
    ∃ left, left.all isLayout = true ∧ rest' = left ++ ch :: rest := by
  rcases List.append_eq_append_iff.1 h with ⟨others, rfl, hrest⟩ | ⟨others, rfl, hrest⟩
  · cases others with
    | nil => exact ⟨[], rfl, hrest.symm⟩
    | cons c others =>
      obtain rfl : ch = c := (List.cons.inj hrest).1
      have := List.all_eq_true.1 hpassed ch (by simp)
      rw [hch] at this
      cases this
  · rw [List.all_append, Bool.and_eq_true] at hgap
    exact ⟨others, hgap.2, hrest⟩

/-- The signs that close brackets, with their tokens. -/
def closings : List (Char × Token) := [(']', .flowSequenceEnd), ('\x7d', .flowMappingEnd)]

/-- The signs that open brackets, with their tokens. -/
def openings : List (Char × Token) := [('[', .flowSequenceStart), ('\x7b', .flowMappingStart)]

theorem closings_cases {ch : Char} {token : Token} (h : (ch, token) ∈ closings) :
    isLayout ch = false ∧ ∀ rest, closes true (ch :: rest) = true := by
  simp only [closings, List.mem_cons, Prod.mk.injEq, List.not_mem_nil, or_false] at h
  rcases h with ⟨rfl, rfl⟩ | ⟨rfl, rfl⟩ <;> exact ⟨rfl, fun _ => rfl⟩

namespace ScannedTail

theorem after_gap {gap text : List Char} {tokens : List Token} (hgap : gap.all isLayout = true)
    (h : ScannedTail text tokens) : ScannedTail (gap ++ text) tokens := by
  intro s blank rest flow hs hkey hflow hblank htext
  have hboth : (blank ++ gap).all isLayout = true := by
    rw [List.all_append, hblank, hgap]
    rfl
  refine h hs hkey hflow hboth ?_
  rw [htext, List.append_assoc, List.append_assoc]

theorem nil {gap : List Char} {ch : Char} {token : Token} (hgap : gap.all isLayout = true)
    (hch : (ch, token) ∈ closings) : ScannedTail (gap ++ [ch]) [token] := by
  intro s blank rest flow hs _ hflow hblank hc
  have hc' : s.cursor.rest = (blank ++ gap) ++ ch :: rest := by
    rw [hc]
    simp
  obtain ⟨t, hreaches, hflow', hrest⟩ :=
    closing_reaches hs hc' (by rw [List.all_append, hblank, hgap]; rfl) hch
  exact ⟨t, hreaches, by rw [hflow', hflow]; rfl, hrest⟩

theorem last {text gap : List Char} {tokens : List Token} {ch : Char} {token : Token}
    (h : ScannedPart text tokens) (hgap : gap.all isLayout = true) (hch : (ch, token) ∈ closings) :
    ScannedTail (text ++ (gap ++ [ch])) (tokens ++ [token]) := by
  intro s blank rest flow hs hallowed hflow hblank hc
  obtain ⟨hlayout, hcloses⟩ := closings_cases hch
  have hinside : (s.flow != 0) = true := by
    rw [hflow]
    rfl
  have hc' : s.cursor.rest = blank ++ (text ++ (gap ++ ch :: rest)) := by
    rw [hc]
    simp
  obtain ⟨t, passed, hpart, hflow', hpassed, hrest⟩ := h hs hallowed (by omega) hblank hc'
    ⟨gap, ch :: rest, rfl, hgap, by rw [hinside]; exact hcloses rest⟩
  obtain ⟨left, hleft, hrest'⟩ := layout_before hlayout hpassed hgap hrest
  obtain ⟨u, hclosing, hflow'', hend⟩ := closing_reaches hpart.ready hrest' hleft hch
  exact ⟨u, hpart.trans hclosing, by rw [hflow'', hflow', hflow]; rfl, hend⟩

theorem more {text gap gap' others : List Char} {tokens tokens' : List Token}
    (h : ScannedPart text tokens) (hgap : gap.all isLayout = true)
    (hgap' : gap'.all isLayout = true) (hothers : ScannedTail others tokens') :
    ScannedTail (text ++ (gap ++ ',' :: (gap' ++ others))) (tokens ++ .flowEntry :: tokens') := by
  intro s blank rest flow hs hallowed hflow hblank hc
  have hinside : (s.flow != 0) = true := by
    rw [hflow]
    rfl
  have hc' : s.cursor.rest = blank ++ (text ++ (gap ++ ',' :: (gap' ++ (others ++ rest)))) := by
    rw [hc]
    simp
  obtain ⟨t, passed, hpart, hflow', hpassed, hrest⟩ := h hs hallowed (by omega) hblank hc'
    ⟨gap, ',' :: (gap' ++ (others ++ rest)), rfl, hgap, by rw [hinside]; rfl⟩
  obtain ⟨left, hleft, hrest'⟩ := layout_before rfl hpassed hgap hrest
  obtain ⟨u, hcomma, hflow'', hallowed', hafter⟩ := comma_reaches hpart.ready hrest' hleft
  obtain ⟨v, htail, hclosed, hend⟩ := hothers hcomma.ready hallowed'
    (by rw [hflow'', hflow', hflow]) hgap' hafter
  exact ⟨v, hpart.trans (hcomma.trans htail), hclosed, hend⟩

end ScannedTail

/-- A text in brackets is scanned if what is inside them is. -/
theorem Scanned.bracketed {text : List Char} {tokens : List Token} {ch : Char} {token : Token}
    (hch : (ch, token) ∈ openings) (h : ScannedTail text tokens) :
    Scanned (ch :: text) (token :: tokens) := by
  intro s blank rest hs hblank hc _
  obtain ⟨t, hopening, hflow, hallowed, hafter⟩ := opening_reaches hs hc hblank hch
  obtain ⟨u, htail, hflow', hend⟩ := @h t [] rest s.flow hopening.ready hallowed hflow rfl hafter
  exact ⟨u, [], hopening.trans htail, hflow', rfl, by rw [hend]; rfl⟩

/-! ## Whole texts -/

/-- A token that can be scanned is the next one. -/
theorem scanNext_run (h : scanToken.run.run s = (.ok (), t)) : scanNext.run.run s =
    (.ok (), t) := by
  unfold scanNext
  rw [run_bind_ok (get_run s), ExceptT.run_tryCatch, StateT.run_bind, h]
  rfl

/-- Steps are part of scanning everything. -/
theorem scanAll_steps (h : Relation.ReflTransGen Step s t) {fuel : Nat}
    (hfuel : s.cursor.rest.length < fuel) :
    ∃ left, t.cursor.rest.length < left ∧
      (scanAll fuel).run.run s = (scanAll left).run.run t := by
  induction h with
  | refl => exact ⟨fuel, hfuel, rfl⟩
  | @tail t u _ hstep ih =>
    obtain ⟨left, hleft, hrun⟩ := ih
    obtain ⟨hscan, hdone, hlt⟩ := hstep
    obtain ⟨left, rfl⟩ : ∃ n, left = n + 1 := ⟨left - 1, by omega⟩
    refine ⟨left, by omega, ?_⟩
    rw [hrun, scanAll, run_bind_ok (scanNext_run hscan), run_bind_ok (get_run u), hdone]
    rfl

/-- The end of a text is scanned. -/
theorem scanAll_end (hs : s.Ready) (hblank : s.cursor.rest.all isLayout = true) (fuel : Nat) :
    ∃ t, (scanAll (fuel + 1)).run.run s = (.ok (), t) ∧
      t.tokens.toList = s.tokens.toList ++ [.streamEnd] := by
  have hc : s.cursor.rest = s.cursor.rest ++ [] := (List.append_nil _).symm
  obtain ⟨allowed, -, hrun⟩ := scanToken_run hs hc hblank rfl
  have hready := arrived_ready hs s.cursor.rest.length allowed
  have hpeek : (arrived s s.cursor.rest.length allowed).cursor.peek = '\x00' := by
    rw [Cursor.peek, show (arrived s s.cursor.rest.length allowed).cursor.rest = [] from
      Cursor.rest_skip_append hc]
    rfl
  have hat : scanAt (arrived s s.cursor.rest.length allowed) = scanEnd := by
    unfold scanAt
    dsimp only
    rw [hpeek]
    rfl
  have hend : scanToken.run.run s = (.ok (), { arrived s s.cursor.rest.length allowed with
      tokens := s.tokens.push .streamEnd, keyAllowed := false, keys := [], done := true }) := by
    rw [hrun, hat, scanEnd, run_bind_ok (unwindTo_run hready (Int.le_refl _)),
      run_bind_ok (dropKey_run hready)]
    rfl
  exact ⟨_, by rw [scanAll, run_bind_ok (scanNext_run hend)]; rfl, Array.toList_push⟩

/-- The tokens of a text that holds one value. -/
theorem Scanned.scan {text : String} {blank body rest : List Char} {tokens : List Token}
    (h : Scanned body tokens) (htext : text.toList = blank ++ (body ++ rest))
    (hallowed : text.toList.all isAllowed = true) (hblank : blank.all isLayout = true)
    (hrest : rest.all isLayout = true) : Token.scan text = tokens ++ [.streamEnd] := by
  obtain ⟨t, passed, hreaches, -, -, hleft⟩ := h (s := { cursor := Cursor.start text })
    ⟨rfl, rfl, nofun⟩ hblank htext ⟨rest, [], (List.append_nil rest).symm, hrest, rfl⟩
  rw [hleft, List.all_append, Bool.and_eq_true] at hrest
  have hfuel : (Cursor.start text).rest.length < text.length + 2 := by
    show text.toList.length < _
    rw [String.length_toList]
    omega
  obtain ⟨left, hlt, hrun⟩ := scanAll_steps hreaches.steps hfuel
  obtain ⟨left, rfl⟩ : ∃ n, left = n + 1 := ⟨left - 1, by omega⟩
  obtain ⟨u, hend, htokens⟩ := scanAll_end hreaches.ready hrest.2 left
  rw [Token.scan, if_pos hallowed]
  dsimp only
  rw [hrun, hend]
  dsimp only
  rw [htokens, hreaches.added]
  rfl

end Scan

end TreeScript.Yaml
