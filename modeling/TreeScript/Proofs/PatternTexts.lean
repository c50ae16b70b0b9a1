import Mathlib
import TreeScript.Pattern.Reader

/-!
# Texts of patterns

A text spells pieces of a pattern in front of other characters if a reader that comes to it adds
these pieces to those it has read and goes on after the text (`Spells`). There is one rule for each
way of writing a piece: a character, a character after a backslash, a set, a group and the marks of
repetitions; texts that follow each other spell their pieces one after the other (`Spells.append`).
Parts with bars between them spell a choice (`SpellsSome`). A text that spells alternatives to its
end is read as their nodes (`read_eq`).
-/

namespace TreeScript.Pattern

/-- The characters that are still to be read. -/
def Reader.ahead (s : Reader) : List Char := s.chars.toList.drop s.position

/-- The state after so many more characters. -/
def Reader.skip (s : Reader) (n : Nat) : Reader := { s with position := s.position + n }

theorem Reader.ahead_skip (s : Reader) (n : Nat) : (s.skip n).ahead = s.ahead.drop n := by
  rw [ahead, skip, ahead, List.drop_drop]

theorem Reader.ahead_skip_length {s : Reader} {text next : List Char} (h : s.ahead = text ++ next) :
    (s.skip text.length).ahead = next := by
  rw [ahead_skip, h, List.drop_left]

theorem Reader.length_ahead_le (s : Reader) : s.ahead.length ≤ s.chars.size := by
  simp [ahead]

theorem Reader.skip_skip (s : Reader) (m n : Nat) : (s.skip m).skip n = s.skip (m + n) := by
  simp only [skip, Nat.add_assoc]

namespace Read

theorem run_bind_ok {α β : Type} {first : Read α} {rest : α → Read β} {s t : Reader} {a : α}
    (h : first.run s = .ok (a, t)) : (first >>= rest).run s = (rest a).run t := by
  rw [StateT.run_bind, h]
  rfl

/-- The characters of the next token. -/
def tokenOf? : List Char → Option (List Char)
  | [] => none
  | '\\' :: rest => some ('\\' :: rest.head?.toList)
  | c :: _ => some [c]

theorem getElem?_position (s : Reader) (i : Nat) :
    s.chars[s.position + i]? = (s.ahead.drop i).head? := by
  rw [Reader.ahead, List.drop_drop, List.head?_drop, Array.getElem?_toList]

theorem next?_run (s : Reader) : next?.run s = .ok ((tokenOf? s.ahead).map String.ofList, s) := by
  have hfirst := getElem?_position s 0
  have hsecond := getElem?_position s 1
  rw [Nat.add_zero, List.drop_zero] at hfirst
  simp only [next?, StateT.run_bind, StateT.run_get, pure_bind, hfirst, hsecond]
  cases hahead : s.ahead with
  | nil => rfl
  | cons c rest =>
    by_cases hc : c = '\\'
    · subst hc
      rfl
    · simp only [List.head?_cons, tokenOf?, Option.map_some]
      rfl

theorem seek_run (s : Reader) (n : Nat) : (seek (s.position + n)).run s =
    if s.ahead.drop n = ['\\'] then
      .error (.fault ⟨"bad escape (end of pattern)", some (s.chars.size - 1)⟩)
    else .ok ((), s.skip n) := by
  have hlast : (s.chars[s.position + n]? == some '\\' && s.chars.size ≤ s.position + n + 1) = true ↔
      s.ahead.drop n = ['\\'] := by
    have hlength : (s.ahead.drop n).length = s.chars.size - (s.position + n) := by
      simp [Reader.ahead]
    rw [getElem?_position, Bool.and_eq_true, beq_iff_eq, decide_eq_true_eq]
    cases hdrop : s.ahead.drop n with
    | nil => simp
    | cons c rest =>
      rw [hdrop, List.length_cons] at hlength
      rw [List.head?_cons, Option.some.injEq, List.cons.injEq, ← List.length_eq_zero_iff]
      exact and_congr_right fun _ => ⟨fun h => by omega, fun h => by omega⟩
  simp only [seek, StateT.run_bind, StateT.run_get, pure_bind, hlast]
  split <;> rfl

theorem take?_run {s : Reader} {token : List Char} (h : tokenOf? s.ahead = some token)
    (hrest : s.ahead.drop token.length ≠ ['\\']) :
    take?.run s = .ok (some (String.ofList token), s.skip token.length) := by
  have hseek := seek_run s token.length
  rw [if_neg hrest, ← String.length_ofList] at hseek
  rw [take?, run_bind_ok (next?_run s), h]
  simp only [Option.map_some]
  rw [run_bind_ok (StateT.run_get s), run_bind_ok hseek, String.length_ofList]
  rfl

theorem accept_run {s : Reader} {token : List Char} (h : tokenOf? s.ahead = some token)
    (hrest : s.ahead.drop token.length ≠ ['\\']) :
    (accept (String.ofList token)).run s = .ok (true, s.skip token.length) := by
  rw [accept, run_bind_ok (next?_run s), h]
  simp only [Option.map_some, BEq.rfl, if_true]
  rw [run_bind_ok (take?_run h hrest)]
  rfl

theorem accept_run_ne {s : Reader} {token : List Char} (h : tokenOf? s.ahead ≠ some token) :
    (accept (String.ofList token)).run s = .ok (false, s) := by
  have hne : ((tokenOf? s.ahead).map String.ofList == some (String.ofList token)) = false := by
    refine beq_false_of_ne fun heq => h ?_
    obtain ⟨found, hfound, heq⟩ := Option.map_eq_some_iff.1 heq
    rw [hfound, String.ofList_injective heq]
  rw [accept, run_bind_ok (next?_run s)]
  simp only [hne]
  rfl

theorem tokenOf?_char {c : Char} (hc : c ≠ '\\') (rest : List Char) :
    tokenOf? (c :: rest) = some [c] := by
  simp [tokenOf?]

theorem take?_run_char {s : Reader} {c : Char} {rest : List Char} (h : s.ahead = c :: rest)
    (hc : c ≠ '\\') (hrest : rest ≠ ['\\']) :
    take?.run s = .ok (some (String.ofList [c]), s.skip 1) :=
  take?_run (by rw [h, tokenOf?_char hc]) (by rw [h]; exact hrest)

theorem accept_run_char {s : Reader} {c : Char} {rest : List Char} (h : s.ahead = c :: rest)
    (hc : c ≠ '\\') (hrest : rest ≠ ['\\']) :
    (accept (String.ofList [c])).run s = .ok (true, s.skip 1) :=
  accept_run (by rw [h, tokenOf?_char hc]) (by rw [h]; exact hrest)

section

variable {s t : Reader} {fuel : Nat} {top first : Bool} {pieces : Pieces} {c : Char}
  {token rest : List Char}

/-- A token that opens no group and ends no sequence adds its pieces. -/
theorem sequence_run {found : Pieces} (hflags : s.flags = [])
    (htoken : tokenOf? s.ahead = some token) (hrest : s.ahead.drop token.length ≠ ['\\'])
    (hmark : token ∉ [['|'], [')'], ['(']])
    (h : (piecesAfter [] pieces (String.ofList token)).run (s.skip token.length) = .ok (found, t)) :
    (sequence (fuel + 1) [] top first pieces).run s =
      (sequence fuel [] top first found).run t := by
  have hne (mark : List Char) (hmark : mark ≠ token) : String.ofList token ≠ String.ofList mark :=
    fun h => hmark (String.ofList_injective h).symm
  simp only [List.mem_cons, List.not_mem_nil, or_false, not_or] at hmark
  obtain ⟨hbar, hclose, hopen⟩ := hmark
  rw [sequence, run_bind_ok (StateT.run_get s), run_bind_ok (next?_run s), htoken]
  simp only [hflags, Option.map_some, ite_self]
  split
  · rename_i h
    cases h
  · rename_i h
    exact absurd (Option.some.inj h) (hne ['|'] (Ne.symm hbar))
  · rename_i h
    exact absurd (Option.some.inj h) (hne [')'] (Ne.symm hclose))
  · rename_i h'
    obtain rfl := Option.some.inj h'
    rw [run_bind_ok (take?_run htoken hrest),
      if_neg fun heq => hne ['('] (Ne.symm hopen) (beq_iff_eq.1 heq)]
    exact run_bind_ok h

theorem startsWith_backslash (token : List Char) :
    (String.ofList token).startsWith "\\" = true ↔ token.head? = some '\\' := by
  rw [String.startsWith_string_iff, String.toList_ofList]
  cases token <;> simp [eq_comm]

theorem piecesAfter_escape (hc : token.head? = some '\\') {found : Node × Width}
    (h : (escape [] (String.ofList token)).run s = .ok (found, t)) :
    (piecesAfter [] pieces (String.ofList token)).run s =
      .ok (.node found.1 found.2 :: pieces, t) := by
  simp only [piecesAfter, List.contains_nil, Bool.false_and, Bool.false_eq_true, if_false,
    (startsWith_backslash token).2 hc, if_true]
  rw [StateT.run_map, h]
  rfl

/-- The characters that mean something else than themselves. -/
def marks : List Char := ['\\', '[', '.', '^', '$', '?', '*', '+', '\x7b', '|', ')', '(']

theorem piecesAfter_char (hc : c ∉ marks) : piecesAfter [] pieces (String.ofList [c]) =
    pure (.node (.literal c.toNat false .exact) .one :: pieces) := by
  have hescape : ¬(String.ofList [c]).startsWith "\\" = true := by
    rw [startsWith_backslash]
    rintro ⟨⟩
    simp [marks] at hc
  have hne : ∀ mark ∈ marks, String.ofList [c] ≠ String.ofList [mark] := by
    intro mark hmark h
    obtain rfl := List.singleton_injective (String.ofList_injective h)
    exact hc hmark
  simp only [marks, List.forall_mem_cons] at hne
  simp only [piecesAfter, List.contains_nil, Bool.false_and, Bool.false_eq_true, if_false, hescape]
  split
  case h_9 =>
    rw [String.toList_ofList]
    rfl
  all_goals exact absurd ‹_› (by tauto)

theorem piecesAfter_dot : piecesAfter [] pieces (String.ofList ['.']) =
    pure (.node (.any false) .one :: pieces) := by
  have hescape : ¬(String.ofList ['.']).startsWith "\\" = true := by simp
  simp only [piecesAfter, List.contains_nil, Bool.false_and, Bool.false_eq_true, if_false, hescape]
  rfl

theorem repeatLast_run {piece : Piece} (hpiece : piece.unrepeatable? = none)
    (hlazy : tokenOf? s.ahead ≠ some ['?']) (hpossessive : tokenOf? s.ahead ≠ some ['+'])
    (bounds : Bounds) (start width : Nat) :
    (repeatLast (piece :: pieces) bounds start width).run s =
      .ok (.node (.repetition .greedy bounds.least bounds.most piece.sized.nodes)
        (piece.sized.width.times bounds.least bounds.most) :: pieces, s) := by
  have hhere : here.run s = .ok (s.position, s) := rfl
  have hlazy : (accept "?").run s = .ok (false, s) := accept_run_ne hlazy
  have hpossessive : (accept "+").run s = .ok (false, s) := accept_run_ne hpossessive
  rw [repeatLast, run_bind_ok hhere]
  simp only [hpiece]
  rw [run_bind_ok hlazy, if_neg Bool.false_ne_true, run_bind_ok hpossessive]
  rfl

/-- A mark of a repetition repeats the last piece, unless a second mark says how. -/
theorem piecesAfter_repeat (mark : Char) (bounds : Bounds)
    (hmark : (mark, bounds) ∈ [('?', ⟨0, some 1⟩), ('*', ⟨0, none⟩), ('+', ⟨1, none⟩)])
    {piece : Piece} (hpiece : piece.unrepeatable? = none)
    (hlazy : tokenOf? s.ahead ≠ some ['?']) (hpossessive : tokenOf? s.ahead ≠ some ['+']) :
    (piecesAfter [] (piece :: pieces) (String.ofList [mark])).run s =
      .ok (.node (.repetition .greedy bounds.least bounds.most piece.sized.nodes)
        (piece.sized.width.times bounds.least bounds.most) :: pieces, s) := by
  have hrepeat : (repeatLast (piece :: pieces) bounds s.position 1).run s = _ :=
    repeatLast_run hpiece hlazy hpossessive bounds s.position 1
  have hescape : ∀ mark ∈ ['?', '*', '+'], ¬(String.ofList [mark]).startsWith "\\" = true := by
    simp
  simp only [List.forall_mem_cons] at hescape
  simp only [List.mem_cons, Prod.mk.injEq, List.not_mem_nil, or_false] at hmark
  obtain ⟨rfl, rfl⟩ | ⟨rfl, rfl⟩ | ⟨rfl, rfl⟩ := hmark
  all_goals
    simp only [piecesAfter, List.contains_nil, Bool.false_and, Bool.false_eq_true, if_false,
      hescape]
    exact hrepeat

theorem category?_eq_none (hc : c.isAlphanum = false) : category? c = none := by
  unfold category?
  split
  case h_7 => rfl
  all_goals cases hc

theorem controlCode?_getD (hc : c.isAlphanum = false) :
    (controlCode? c).getD c.toNat = c.toNat := by
  unfold controlCode?
  split
  case h_8 => rfl
  case h_9 => rfl
  all_goals cases hc

theorem commonCode_run (hc : c.isAlphanum = false) (token : String) :
    (commonCode token c).run s = .ok (c.toNat, s) := by
  have hletter : isLetter c = false := (Bool.or_eq_false_iff.1 hc).1
  rw [commonCode, run_bind_ok (StateT.run_get s)]
  split
  case h_5 =>
    rw [hletter]
    rfl
  all_goals cases hc

/-- A backslash before a character that is no letter and no digit takes away its meaning. -/
theorem escape_run (hc : c.isAlphanum = false) :
    (escape [] (String.ofList ['\\', c])).run s =
      .ok ((.literal c.toNat false .exact, .one), s) := by
  have hdigit : c.isDigit = false := (Bool.or_eq_false_iff.1 hc).2
  have hcode := controlCode?_getD hc
  simp only [escape, String.toList_ofList, List.drop_succ_cons, List.drop_zero, List.headD_cons,
    category?_eq_none hc]
  split
  case h_5 =>
    split
    · rename_i hsome
      cases hsome
    · rename_i code _ hsome
      rw [hsome] at hcode
      obtain rfl : code = c.toNat := hcode
      rfl
    · have hzero : ¬(c == '0') = true := by
        rintro hzero
        cases beq_iff_eq.1 hzero ▸ hc
      rw [if_neg hzero, if_neg (by simp [hdigit]), StateT.run_map, commonCode_run hc]
      rfl
  all_goals cases hc

theorem sequence_run_end (h : tokenOf? s.ahead ∈ [none, some ['|'], some [')']]) (fuel : Nat)
    (flags : Flags) (top first : Bool) (pieces : Pieces) :
    (sequence fuel flags top first pieces).run s = .ok (pieces.sized, s) := by
  cases fuel with
  | zero => rfl
  | succ fuel =>
    rw [sequence, run_bind_ok (StateT.run_get s), run_bind_ok (next?_run s)]
    simp only [List.mem_cons, List.not_mem_nil, or_false] at h
    obtain h | h | h := h
    all_goals
      rw [h]
      rfl

theorem alternatives_run {a : Sized} {others : List Sized} {u : Reader}
    (ha : (sequence fuel [] top top []).run s = .ok (a, t))
    (hothers : (moreAlternatives fuel [] top).run t = .ok (others, u)) (hflags : u.flags = []) :
    (alternatives (fuel + 1) [] top).run s = .ok (choose [] (a :: others), u) := by
  rw [alternatives, run_bind_ok ha, run_bind_ok hothers, run_bind_ok (StateT.run_get u), hflags,
    ite_self]
  rfl

theorem moreAlternatives_run_end (h : tokenOf? s.ahead ≠ some ['|']) (fuel : Nat) (flags : Flags)
    (top : Bool) : (moreAlternatives fuel flags top).run s = .ok ([], s) := by
  have hbar : (accept "|").run s = .ok (false, s) := accept_run_ne h
  cases fuel with
  | zero => rfl
  | succ fuel =>
    rw [moreAlternatives, run_bind_ok hbar]
    rfl

theorem moreAlternatives_run_bar {b : Sized} (hbar : s.ahead = '|' :: rest) (hrest : rest ≠ ['\\'])
    (hb : (sequence fuel [] top false []).run (s.skip 1) = .ok (b, t))
    (hend : tokenOf? t.ahead ≠ some ['|']) :
    (moreAlternatives (fuel + 1) [] top).run s = .ok ([b], t) := by
  have haccept : (accept "|").run s = .ok (true, s.skip 1) :=
    accept_run_char hbar (by decide) hrest
  rw [moreAlternatives, run_bind_ok haccept, if_pos rfl, run_bind_ok hb,
    run_bind_ok (moreAlternatives_run_end hend fuel [] top)]
  rfl

/-- Parentheses that only keep together what is between them add it as one piece. -/
theorem sequence_run_group {body : Sized} {after : List Char} (hflags : s.flags = [])
    (hopen : s.ahead = '(' :: '?' :: ':' :: rest) (hrest : rest ≠ ['\\'])
    (hbody : (alternatives fuel [] false).run (s.skip 3) = .ok (body, t))
    (hclose : t.ahead = ')' :: after) (hafter : after ≠ ['\\']) :
    (sequence (fuel + 1) [] top first pieces).run s =
      (sequence fuel [] top first (.plain body :: pieces)).run (t.skip 1) := by
  have hskip (n : Nat) : (s.skip n).ahead = ('(' :: '?' :: ':' :: rest).drop n := by
    rw [Reader.ahead_skip, hopen]
  have htake : take?.run s = .ok (some "(", s.skip 1) :=
    take?_run_char hopen (by decide) (by simp)
  have hmark : (accept "?").run (s.skip 1) = .ok (true, s.skip 2) :=
    accept_run_char (hskip 1) (by decide) (by simp)
  have hcolon : take?.run (s.skip 2) = .ok (some ":", s.skip 3) :=
    take?_run_char (hskip 2) (by decide) hrest
  have hhead : (groupHead [] s.position first pieces).run (s.skip 1) = .ok (.plain, s.skip 3) := by
    rw [groupHead, run_bind_ok hmark, if_pos rfl, run_bind_ok hcolon]
    rfl
  have hend : (close s.position).run t = .ok ((), t.skip 1) := by
    have haccept : (accept ")").run t = .ok (true, t.skip 1) :=
      accept_run_char hclose (by decide) hafter
    rw [close, run_bind_ok haccept]
    rfl
  have hhere : here.run (s.skip 1) = .ok (s.position + 1, s.skip 1) := rfl
  rw [sequence, run_bind_ok (StateT.run_get s), run_bind_ok (next?_run s), hopen]
  simp only [hflags, tokenOf?_char (show '(' ≠ '\\' by decide), Option.map_some, ite_self]
  refine (run_bind_ok htake).trans ?_
  rw [if_pos (by rfl), run_bind_ok hhere, Nat.add_sub_cancel, run_bind_ok hhead, run_bind_ok hbody,
    run_bind_ok hend]

theorem whole_run {found : Sized} (hstart : s.position = 0) (hlone : s.ahead ≠ ['\\'])
    (h : (alternatives (4 * (s.chars.size + 2) + 8) [] true).run s = .ok (found, t))
    (hflags : t.flags = []) (hconditions : t.conditions = []) (htext : t.ofText = true)
    (hend : t.ahead = []) (hrefusal : refusalOf? false found.nodes = none)
    (husable : areUsable true found.nodes = true) : whole.run s = .ok (found, t) := by
  have hseek : (seek 0).run s = .ok ((), s) := by
    have hseek := seek_run s 0
    rw [List.drop_zero, if_neg hlone, hstart] at hseek
    exact hseek
  have hfuel : fuelLeft.run s = .ok (s.chars.size + 2, s) := rfl
  have hnext : next?.run t = .ok (none, t) := by
    rw [next?_run, hend]
    rfl
  rw [whole, run_bind_ok hseek, run_bind_ok hfuel, run_bind_ok h, run_bind_ok (StateT.run_get t)]
  simp only [hflags, List.contains_nil, Bool.false_and, Bool.false_eq_true, if_false]
  rw [run_bind_ok hnext]
  simp only [Option.isSome_none, Bool.false_eq_true, if_false, hconditions, List.find?_nil,
    hrefusal, htext, husable, if_true]
  rfl

end

/-! ## Spelling -/

/-- In front of other characters, a text adds to the pieces that have been read. It takes no more
steps than it has characters, and twice as much fuel is enough for the groups in it. -/
def Spells (text next : List Char) (before after : Pieces) : Prop :=
  ∃ steps ≤ text.length, ∀ (s : Reader) (fuel : Nat) (top first : Bool), s.flags = [] →
    s.ahead = text ++ next → 2 * text.length ≤ fuel + steps →
    (sequence (fuel + steps) [] top first before).run s =
      (sequence fuel [] top first after).run (s.skip text.length)

/-- In front of other characters, a text spells alternatives. -/
def SpellsSome (text next : List Char) (found : Sized) : Prop :=
  ∀ (s : Reader) (fuel : Nat) (top : Bool), s.flags = [] → s.ahead = text ++ next →
    2 * text.length + 2 ≤ fuel →
    (alternatives fuel [] top).run s = .ok (found, s.skip text.length)

section

variable {text other next : List Char} {before between after : Pieces} {c : Char}

theorem Spells.nil : Spells [] next before before :=
  ⟨0, Nat.le_refl 0, fun _ _ _ _ _ _ _ => rfl⟩

theorem Spells.append (h : Spells text (other ++ next) before between)
    (h' : Spells other next between after) : Spells (text ++ other) next before after := by
  obtain ⟨m, hm, hrun⟩ := h
  obtain ⟨n, hn, hrun'⟩ := h'
  refine ⟨n + m, by rw [List.length_append]; omega, fun s fuel top first hflags hahead hfuel => ?_⟩
  have hflags' : (s.skip text.length).flags = [] := hflags
  rw [List.append_assoc] at hahead
  have hahead' : (s.skip text.length).ahead = other ++ next := Reader.ahead_skip_length hahead
  rw [List.length_append] at hfuel
  rw [← Nat.add_assoc, hrun _ _ _ _ hflags hahead (by omega),
    hrun' _ _ _ _ hflags' hahead' (by omega), Reader.skip_skip, List.length_append]

/-- A text that one token starts. -/
theorem Spells.of_piecesAfter (token text : List Char)
    (htoken : tokenOf? (token ++ (text ++ next)) = some token) (hlone : text ++ next ≠ ['\\'])
    (hmark : token ∉ [[], ['|'], [')'], ['(']])
    (h : ∀ s : Reader, s.ahead = text ++ next →
      (piecesAfter [] before (String.ofList token)).run s = .ok (after, s.skip text.length)) :
    Spells (token ++ text) next before after := by
  simp only [List.mem_cons, List.not_mem_nil, or_false, not_or] at hmark
  have hlength : 1 ≤ token.length := List.length_pos_iff.2 hmark.1
  refine ⟨1, by rw [List.length_append]; omega, fun s fuel top first hflags hahead _ => ?_⟩
  rw [List.append_assoc] at hahead
  have hdrop : s.ahead.drop token.length = text ++ next := by rw [hahead, List.drop_left]
  have hrest := h (s.skip token.length) (by rw [Reader.ahead_skip, hdrop])
  rw [Reader.skip_skip, ← List.length_append] at hrest
  exact sequence_run hflags (by rw [hahead, htoken]) (by rwa [hdrop]) (by simp [hmark]) hrest

/-- A character without another meaning spells itself. -/
theorem Spells.char (hc : c ∉ marks) (hnext : next ≠ ['\\']) :
    Spells [c] next before (.node (.literal c.toNat false .exact) .one :: before) := by
  have hne : ∀ mark ∈ marks, c ≠ mark := fun mark hmark h => hc (h ▸ hmark)
  simp only [marks, List.forall_mem_cons] at hne
  refine Spells.of_piecesAfter [c] [] (tokenOf?_char hne.1 _) hnext ?_ fun s _ => ?_
  · simp [hne]
  · rw [piecesAfter_char hc]
    rfl

/-- A backslash before a character that is no letter and no digit takes away its meaning. -/
theorem Spells.escape (hc : c.isAlphanum = false) (hnext : next ≠ ['\\']) :
    Spells ['\\', c] next before (.node (.literal c.toNat false .exact) .one :: before) :=
  Spells.of_piecesAfter ['\\', c] [] rfl hnext (by simp)
    fun _ _ => piecesAfter_escape rfl (escape_run hc)

theorem Spells.digit (hnext : next ≠ ['\\']) : Spells ['\\', 'd'] next before
    (.node (.set false [.category .digit false] .exact false) .one :: before) := by
  refine Spells.of_piecesAfter ['\\', 'd'] [] rfl hnext (by simp) fun s _ => ?_
  have hescape : (Read.escape [] (String.ofList ['\\', 'd'])).run s =
      .ok (ofSet [] false [.category .digit false], s) := rfl
  exact piecesAfter_escape rfl hescape

theorem Spells.dot (hnext : next ≠ ['\\']) :
    Spells ['.'] next before (.node (.any false) .one :: before) := by
  refine Spells.of_piecesAfter ['.'] [] rfl hnext (by simp) fun s _ => ?_
  rw [piecesAfter_dot]
  rfl

section

variable {s : Reader} {rest : List Char} {items : List SetItem} {start fuel : Nat}

theorem setToken_char (hc : c ≠ '\\') : setToken (String.ofList [c]) = pure (.code c.toNat) := by
  simp [setToken]

theorem setItems_run_item (hc : c ∉ ['\\', ']']) (hahead : s.ahead = c :: rest)
    (hrest : rest ≠ ['\\']) : (setItems start (fuel + 1) items).run s =
      (setItems.setItem start fuel items (String.ofList [c])).run (s.skip 1) := by
  simp only [List.mem_cons, List.not_mem_nil, or_false, not_or] at hc
  rw [setItems, run_bind_ok (take?_run_char hahead hc.1 hrest)]
  split
  · rename_i h
    cases h
  · rename_i h
    exact absurd (List.singleton_injective (String.ofList_injective (Option.some.inj h :
      _ = String.ofList [']']))) hc.2
  · rename_i h
    obtain rfl := Option.some.inj h
    rfl

theorem setItems_run_char (hc : c ∉ ['\\', ']']) (hahead : s.ahead = c :: rest)
    (hrest : rest ≠ ['\\']) (hrange : tokenOf? rest ≠ some ['-']) :
    (setItems start (fuel + 1) items).run s =
      (setItems start fuel (items ++ [.code c.toNat])).run (s.skip 1) := by
  have hne : c ≠ '\\' := fun h => hc (by simp [h])
  have hskip : (s.skip 1).ahead = rest := by
    rw [Reader.ahead_skip, hahead]
    rfl
  have hdash : (accept "-").run (s.skip 1) = .ok (false, s.skip 1) :=
    accept_run_ne (hskip ▸ hrange)
  rw [setItems_run_item hc hahead hrest, setItems.setItem, setToken_char hne, pure_bind,
    run_bind_ok hdash]
  rfl

theorem setItems_run_close (hitems : items ≠ []) (hahead : s.ahead = ']' :: rest)
    (hrest : rest ≠ ['\\']) :
    (setItems start (fuel + 1) items).run s = .ok (items, s.skip 1) := by
  have htake : take?.run s = .ok (some "]", s.skip 1) :=
    take?_run_char hahead (by decide) hrest
  rw [setItems, run_bind_ok htake]
  simp [hitems]
  rfl

/-- A dash in front of the closing bracket is itself. -/
theorem setItems_run_dash (hc : c ∉ ['\\', ']']) (hahead : s.ahead = c :: '-' :: ']' :: rest)
    (hrest : rest ≠ ['\\']) :
    (setItems start (fuel + 1) items).run s =
      .ok (items ++ [.code c.toNat, .code 45], s.skip 3) := by
  have hne : c ≠ '\\' := fun h => hc (by simp [h])
  have hskip (n : Nat) : (s.skip n).ahead = (c :: '-' :: ']' :: rest).drop n := by
    rw [Reader.ahead_skip, hahead]
  have hdash : (accept "-").run (s.skip 1) = .ok (true, s.skip 2) :=
    accept_run_char (hskip 1) (by decide) (by simp)
  have hclose : take?.run (s.skip 2) = .ok (some "]", s.skip 3) :=
    take?_run_char (hskip 2) (by decide) hrest
  rw [setItems_run_item hc hahead (by simp), setItems.setItem, setToken_char hne, pure_bind,
    run_bind_ok hdash, if_pos rfl, run_bind_ok hclose]
  rfl

theorem characterSet_run (hnegated : tokenOf? s.ahead ≠ some ['^']) {found : List SetItem}
    {t : Reader} (h : ∀ start, (setItems start (s.chars.size + 2) []).run s = .ok (found, t))
    (hdistinct : distinct found = found) (hlength : 2 ≤ found.length) :
    (characterSet []).run s = .ok (ofSet [] false found, t) := by
  have hhere : here.run s = .ok (s.position, s) := rfl
  have hcaret : (accept "^").run s = .ok (false, s) := accept_run_ne hnegated
  have hfuel : fuelLeft.run s = .ok (s.chars.size + 2, s) := rfl
  rw [characterSet, run_bind_ok hhere, run_bind_ok hcaret, run_bind_ok hfuel, run_bind_ok (h _)]
  simp only [hdistinct]
  split
  · exact absurd hlength (by simp)
  · rfl

end

theorem ofSet_nil (items : List SetItem) :
    ofSet [] false items = (.set false items .exact false, .one) := by
  simp [ofSet, single, caseOf, asciiOf, Case.forItems]

/-- A bracket and what follows it spell a set. -/
theorem Spells.set {items : List SetItem} (h : ∀ s : Reader, s.ahead = text ++ next →
      (characterSet []).run s = .ok (ofSet [] false items, s.skip text.length))
    (hlone : text ++ next ≠ ['\\']) :
    Spells ('[' :: text) next before (.node (.set false items .exact false) .one :: before) := by
  refine Spells.of_piecesAfter ['['] text rfl hlone (by simp) fun s hahead => ?_
  have hescape : ¬(String.ofList ['[']).startsWith "\\" = true := by simp
  simp only [piecesAfter, List.contains_nil, Bool.false_and, Bool.false_eq_true, if_false, hescape]
  refine (StateT.run_map ..).trans ?_
  rw [h s hahead, ofSet_nil]
  rfl

/-- A mark of a repetition repeats the piece before it, unless a second mark says how. -/
theorem Spells.repeated (mark : Char) (bounds : Bounds)
    (hmark : (mark, bounds) ∈ [('?', ⟨0, some 1⟩), ('*', ⟨0, none⟩), ('+', ⟨1, none⟩)])
    {piece : Piece} (h : Spells text (mark :: next) before (piece :: before))
    (hpiece : piece.unrepeatable? = none)
    (hnext : tokenOf? next ∉ [some ['?'], some ['+']]) (hlone : next ≠ ['\\']) :
    Spells (text ++ [mark]) next before
      (.node (.repetition .greedy bounds.least bounds.most piece.sized.nodes)
        (piece.sized.width.times bounds.least bounds.most) :: before) := by
  refine h.append ?_
  simp only [List.mem_cons, List.not_mem_nil, or_false, not_or] at hnext
  have htoken : tokenOf? (mark :: next) = some [mark] ∧ mark ≠ '|' ∧ mark ≠ ')' ∧ mark ≠ '(' := by
    simp only [List.mem_cons, Prod.mk.injEq, List.not_mem_nil, or_false] at hmark
    obtain ⟨rfl, -⟩ | ⟨rfl, -⟩ | ⟨rfl, -⟩ := hmark <;> simp [tokenOf?]
  refine Spells.of_piecesAfter [mark] [] htoken.1 hlone ?_ fun s hahead => ?_
  · simp [htoken.2]
  · exact piecesAfter_repeat mark bounds hmark hpiece (hahead ▸ hnext.1) (hahead ▸ hnext.2)

theorem Spells.sequence_run (h : Spells text next before after)
    (hnext : tokenOf? next ∈ [none, .some ['|'], .some [')']]) {s : Reader} {fuel : Nat}
    {top first : Bool} (hflags : s.flags = []) (hahead : s.ahead = text ++ next)
    (hfuel : 2 * text.length ≤ fuel) :
    (sequence fuel [] top first before).run s = .ok (after.sized, s.skip text.length) := by
  obtain ⟨n, hn, hrun⟩ := h
  obtain ⟨fuel, rfl⟩ := Nat.exists_eq_add_of_le' (show n ≤ fuel by omega)
  have hend : (s.skip text.length).ahead = next := Reader.ahead_skip_length hahead
  rw [hrun s fuel top first hflags hahead hfuel]
  exact sequence_run_end (hend ▸ hnext) fuel [] top first after

theorem of_tokenOf?_mem (h : tokenOf? next ∈ [none, some [')']]) :
    tokenOf? next ∈ [none, some ['|'], some [')']] ∧ tokenOf? next ≠ some ['|'] := by
  simp only [List.mem_cons, List.not_mem_nil, or_false] at h
  obtain h | h := h <;> simp [h]

/-- A text in front of a closing parenthesis or the end is one alternative. -/
theorem Spells.some (h : Spells text next [] after) (hnext : tokenOf? next ∈ [none, .some [')']]) :
    SpellsSome text next after.sized := by
  intro s fuel top hflags hahead hfuel
  obtain ⟨fuel, rfl⟩ := Nat.exists_eq_add_of_le' (show 1 ≤ fuel by omega)
  obtain ⟨hends, hbar⟩ := of_tokenOf?_mem hnext
  have hend : (s.skip text.length).ahead = next := Reader.ahead_skip_length hahead
  have hsequence : (sequence fuel [] top top []).run s = .ok (after.sized, s.skip text.length) :=
    h.sequence_run hends hflags hahead (by omega)
  exact alternatives_run hsequence (moreAlternatives_run_end (hend ▸ hbar) fuel [] top) hflags

/-- Two alternatives that do not start with the same node stay as they are. -/
theorem choose_pair {node head : Node} {w v : Width} {rest tail : Sized}
    (hsame : node.same head = false) (hset : setItemsOf? ((node, w) :: rest) = none) :
    choose [] [(node, w) :: rest, (head, v) :: tail] =
      [(.branch [node :: rest.nodes, head :: tail.nodes],
        (Sized.width ((node, w) :: rest)).or (Sized.width ((head, v) :: tail)))] := by
  have hstart (fuel : Nat) : commonStart fuel [(node, w) :: rest, (head, v) :: tail] =
      ([], [(node, w) :: rest, (head, v) :: tail]) := by
    cases fuel <;> simp [commonStart, hsame]
  rw [choose]
  · simp only [hstart, List.mapM_cons, hset]
    rfl
  · simp

/-- Two texts with a bar between them are two alternatives. -/
theorem Spells.or (h : Spells text ('|' :: (other ++ next)) [] before)
    (h' : Spells other next [] after) (hlone : other ++ next ≠ ['\\'])
    (hnext : tokenOf? next ∈ [none, .some [')']]) :
    SpellsSome (text ++ '|' :: other) next (choose [] [before.sized, after.sized]) := by
  intro s fuel top hflags hahead hfuel
  rw [List.append_assoc] at hahead
  rw [List.length_append, List.length_cons] at hfuel ⊢
  obtain ⟨fuel, rfl⟩ := Nat.exists_eq_add_of_le' (show 2 ≤ fuel by omega)
  obtain ⟨hends, hbar⟩ := of_tokenOf?_mem hnext
  have hmiddle : (s.skip text.length).ahead = '|' :: (other ++ next) :=
    Reader.ahead_skip_length hahead
  have hother : ((s.skip text.length).skip 1).ahead = other ++ next := by
    rw [Reader.ahead_skip, hmiddle]
    rfl
  have hend : (((s.skip text.length).skip 1).skip other.length).ahead = next :=
    Reader.ahead_skip_length hother
  have hfirst : (sequence (fuel + 1) [] top top []).run s =
      .ok (before.sized, s.skip text.length) :=
    h.sequence_run (by simp [tokenOf?]) hflags hahead (by omega)
  have hsecond : (sequence fuel [] top false []).run ((s.skip text.length).skip 1) =
      .ok (after.sized, ((s.skip text.length).skip 1).skip other.length) :=
    h'.sequence_run hends hflags hother (by omega)
  rw [Nat.add_comm other.length, ← Nat.add_assoc, ← Reader.skip_skip, ← Reader.skip_skip]
  exact alternatives_run hfirst
    (moreAlternatives_run_bar hmiddle hlone hsecond (hend ▸ hbar)) hflags

/-- Parentheses that only keep together what is between them spell one piece. -/
theorem Spells.group {body : Sized} (h : SpellsSome text (')' :: next) body)
    (hnext : next ≠ ['\\']) :
    Spells ('(' :: '?' :: ':' :: text ++ [')']) next before (.plain body :: before) := by
  refine ⟨1, by simp, fun s fuel top first hflags hahead hfuel => ?_⟩
  have hopen : s.ahead = '(' :: '?' :: ':' :: (text ++ ')' :: next) := by simp [hahead]
  have hbody : (s.skip 3).ahead = text ++ ')' :: next := by
    rw [Reader.ahead_skip, hopen]
    rfl
  have hclose : ((s.skip 3).skip text.length).ahead = ')' :: next :=
    Reader.ahead_skip_length hbody
  have halternatives : (alternatives fuel [] false).run (s.skip 3) =
      .ok (body, (s.skip 3).skip text.length) :=
    h _ _ _ hflags hbody (by simp at hfuel; omega)
  have hlone : text ++ ')' :: next ≠ ['\\'] := by cases text <;> simp
  rw [sequence_run_group hflags hopen hlone halternatives hclose hnext]
  simp [Reader.skip_skip, Nat.add_comm, Nat.add_left_comm]

end

end Read

/-- The state in which the reading of a text starts. -/
def Reader.start (named? : String → Option Char) (text : List Char) : Reader :=
  { chars := text.toArray, position := 0, flags := [], groups := [], behindFrom := none,
    conditions := [], ofText := true, named? := named? }

/-- A text that spells alternatives is a pattern if nothing in them is refused. -/
theorem read_eq (named? : String → Option Char) {text : List Char} {found : Sized}
    (h : Read.SpellsSome text [] found) (hlone : text ≠ ['\\'])
    (hrefusal : Read.refusalOf? false found.nodes = none)
    (husable : Read.areUsable true found.nodes = true) :
    read named? [] (String.ofList text) = .ok ⟨found.nodes, found.width.least, false⟩ := by
  have hahead : (Reader.start named? text).ahead = text ++ [] := (List.append_nil text).symm
  have hend : ((Reader.start named? text).skip text.length).ahead = [] :=
    Reader.ahead_skip_length hahead
  have hwhole : Read.whole.run (.start named? text) =
      .ok (found, (Reader.start named? text).skip text.length) :=
    Read.whole_run rfl hlone (h _ _ _ rfl hahead (by simp [Reader.start]; omega)) rfl rfl rfl hend
      hrefusal husable
  rw [read, readAs, String.toList_ofList]
  simp only [Reader.start] at hwhole
  simp only [hwhole]
  rfl

end TreeScript.Pattern
