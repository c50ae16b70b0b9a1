import Mathlib
import TreeScript.Proofs.Basic
import TreeScript.Proofs.JsonTokens
import TreeScript.Yaml.Writer

/-!
# Written YAML

What is written on a page stays there, and only characters that are written as they are come to it:
line feeds and what is printable in ASCII (`Page.Grows`). Every way of writing a scalar keeps to
this. Without quotes, in single quotes and as a block a text is written only if it has no other
characters, and in double quotes all others are written by escapes.
-/

namespace TreeScript.Yaml

/-- A text of which every character is written as it is. -/
def Clean (cs : List Char) : Prop := ∀ c ∈ cs, isSpecial c = false

instance (cs : List Char) : Decidable (Clean cs) :=
  inferInstanceAs (Decidable (∀ c ∈ cs, isSpecial c = false))

namespace Clean

theorem append {cs ds : List Char} (hcs : Clean cs) (hds : Clean ds) : Clean (cs ++ ds) := by
  intro c hc
  rcases List.mem_append.1 hc with h | h
  · exact hcs c h
  · exact hds c h

theorem of_all {cs : List Char} (h : cs.all (fun c => !isSpecial c) = true) : Clean cs := by
  intro c hc
  simpa using List.all_eq_true.1 h c hc

theorem reverse {cs : List Char} (h : Clean cs) : Clean cs.reverse :=
  fun c hc => h c (List.mem_reverse.1 hc)

end Clean

theorem clean_join {texts : List String} (h : ∀ s ∈ texts, Clean s.toList) :
    Clean (String.join texts).toList := by
  induction texts with
  | nil => exact fun _ hc => nomatch hc
  | cons s texts ih =>
    obtain ⟨hs, htexts⟩ := List.forall_mem_cons.1 h
    rw [String.join_cons, String.toList_append]
    exact hs.append (ih htexts)

/-- A quote is written twice in single quotes. -/
theorem clean_singleQuoted {c : Char} (hc : isSpecial c = false) :
    Clean (if c == '\'' then "''" else c.toString).toList := by
  split
  · exact .of_all (by decide)
  · intro d hd
    rw [Char.toString_eq_singleton, String.toList_singleton, List.mem_singleton] at hd
    rwa [hd]

/-! ## Pages grow -/

/-- What is on a page is on another one, and only characters that are written as they are come
after it. -/
def Page.Grows (p q : Page) : Prop :=
  ∃ more, q.pieces = more ++ p.pieces ∧ ∀ s ∈ more, Clean s.toList

namespace Page.Grows

variable {p q r : Page} {s : String}

theorem of_pieces (h : q.pieces = p.pieces) : Grows p q := ⟨[], h, by simp⟩

theorem refl (p : Page) : Grows p p := of_pieces rfl

theorem trans (hpq : Grows p q) (hqr : Grows q r) : Grows p r := by
  obtain ⟨first, hq, hfirst⟩ := hpq
  obtain ⟨second, hr, hsecond⟩ := hqr
  refine ⟨second ++ first, by rw [hr, hq, List.append_assoc], fun s hs => ?_⟩
  rcases List.mem_append.1 hs with h | h
  · exact hsecond s h
  · exact hfirst s h

theorem of_cons (h : q.pieces = s :: p.pieces) (hs : Clean s.toList) : Grows p q :=
  ⟨[s], h, fun t ht => by rwa [List.mem_singleton.1 ht]⟩

theorem ite {c : Prop} [Decidable c] (hq : Grows p q) (hr : Grows p r) :
    Grows p (if c then q else r) := by
  split
  · exact hq
  · exact hr

theorem foldl {α : Type} {f : Page → α → Page} {l : List α}
    (h : ∀ p, ∀ a ∈ l, Grows p (f p a)) (p : Page) : Grows p (l.foldl f p) := by
  induction l generalizing p with
  | nil => exact refl p
  | cons a l ih =>
    exact (h p a List.mem_cons_self).trans
      (ih (fun q b hb => h q b (List.mem_cons_of_mem a hb)) (f p a))

theorem put (p : Page) (hs : Clean s.toList) : Grows p (p.put s) := of_cons rfl hs

theorem markWith (p : Page) (hs : Clean s.toList) (needsSpace spaced indented : Bool) :
    Grows p (p.markWith s needsSpace spaced indented) := by
  refine of_cons rfl ?_
  split
  · exact hs
  · rw [String.toList_append]
    exact .append (.of_all (by decide)) hs

theorem mark (p : Page) (hs : Clean s.toList) (needsSpace : Bool) : Grows p (p.mark s needsSpace) :=
  markWith p hs needsSpace false false

theorem opening (p : Page) (hs : Clean s.toList) : Grows p (p.opening s) :=
  markWith p hs true true false

theorem bullet (p : Page) (hs : Clean s.toList) : Grows p (p.bullet s) :=
  markWith p hs true false true

theorem breakLine (p : Page) : Grows p p.breakLine := of_cons rfl (.of_all (by decide))

theorem toIndent (p : Page) (indent : Nat) : Grows p (p.toIndent indent) := by
  have hspaces : ∀ n, Clean (String.ofList (List.replicate n ' ')).toList := by
    intro n c hc
    rw [String.toList_ofList] at hc
    rw [List.eq_of_mem_replicate hc]
    decide
  unfold Page.toIndent
  dsimp only
  split_ifs
  · exact (breakLine p).trans (of_cons rfl (hspaces _))
  · exact breakLine p
  · exact of_cons rfl (hspaces _)
  · exact refl p

theorem foldLine (p : Page) (indent : Nat) : Grows p (p.foldLine indent) :=
  (toIndent p indent).trans (of_pieces rfl)

end Page.Grows

/-! ## Texts of scalars -/

/-- A text is cut into parts of its own characters. -/
theorem mem_of_mem_runs {classOf : Char → Nat} {cs run : List Char} {c : Char}
    (hrun : run ∈ runs classOf cs) (hc : c ∈ run) : c ∈ cs := by
  induction cs generalizing run with
  | nil => cases hrun
  | cons d cs ih =>
    have htail : ∀ other ∈ runs classOf cs, c ∈ other → c ∈ d :: cs :=
      fun other hother hmem => List.mem_cons_of_mem d (ih hother hmem)
    unfold runs at hrun
    split at hrun
    · rename_i e es others heq
      split at hrun
      · rcases List.mem_cons.1 hrun with rfl | hrun
        · rcases List.mem_cons.1 hc with rfl | hc
          · exact List.mem_cons_self
          · exact htail (e :: es) (by rw [heq]; exact List.mem_cons_self) hc
        · exact htail run (by rw [heq]; exact List.mem_cons_of_mem _ hrun) hc
      · rcases List.mem_cons.1 hrun with rfl | hrun
        · rw [List.mem_singleton.1 hc]
          exact List.mem_cons_self
        · exact htail run (by rwa [heq]) hc
    · rcases List.mem_cons.1 hrun with rfl | hrun
      · rw [List.mem_singleton.1 hc]
        exact List.mem_cons_self
      · exact htail run hrun hc

theorem Clean.of_mem_runs {cs : List Char} (hcs : Clean cs) {classOf : Char → Nat}
    {run : List Char} (hrun : run ∈ runs classOf cs) : Clean run :=
  fun _ hc => hcs _ (mem_of_mem_runs hrun hc)

theorem clean_of_analyze {text : String}
    (h : (analyze text).plain = true ∨ (analyze text).single = true ∨ (analyze text).block = true) :
    Clean text.toList := by
  unfold analyze at h
  dsimp only at h
  split at h
  · rename_i hempty
    rw [List.isEmpty_iff.1 hempty]
    exact fun _ hc => nomatch hc
  · have hspecial : text.toList.any isSpecial = false := by
      rcases h with h | h | h
      all_goals
        simp only [Bool.not_eq_true', Bool.or_eq_false_iff] at h
        simp_all
    intro c hc
    exact Bool.eq_false_iff.2 fun hc' => by simp_all

/-- What is written without quotes, in single quotes or as a block has only characters that are
written as they are. -/
theorem ScalarForm.clean_of_style {form : ScalarForm} {asKey : Bool}
    (h : form.style asKey ≠ .double) : Clean form.text.toList := by
  refine clean_of_analyze ?_
  unfold style at h
  dsimp only at h
  split_ifs at h with hplain hblock hsingle
  · exact .inl (by simp_all)
  · exact .inr (.inr (by simp_all))
  · exact .inr (.inl (by simp_all))
  · exact absurd rfl h

theorem clean_tagText (tag : Tag) : Clean (ScalarForm.tagText tag).toList := by
  cases tag <;> exact .of_all (by decide)

theorem clean_hexPaddedUpper (width n : Nat) : Clean (Text.hexPaddedUpper width n).toList := by
  have hupper : ∀ d < 16, isSpecial (Nat.digitChar d).toUpper = false := by decide
  intro c hc
  rw [Text.hexPaddedUpper, String.toList_ofList] at hc
  obtain ⟨e, he, rfl⟩ := List.mem_map.1 hc
  obtain ⟨d, hd, rfl⟩ := Text.mem_hexPadded he
  exact hupper d hd

theorem clean_escapeText (c : Char) : Clean (escapeText c).toList := by
  unfold escapeText
  split
  iterate 15 exact .of_all (by decide)
  dsimp only
  split_ifs
  all_goals
    rw [String.toList_append]
    exact .append (.of_all (by decide)) (clean_hexPaddedUpper _ _)

theorem clean_blockHints (cs : List Char) : Clean (blockHints cs).toList := by
  unfold blockHints
  dsimp only
  rw [String.toList_append]
  refine .append ?_ ?_
  · split <;> exact .of_all (by decide)
  · split
    · exact .of_all (by decide)
    · split
      · exact .of_all (by decide)
      · split
        · exact .of_all (by decide)
        · split <;> exact .of_all (by decide)

/-! ## Scalars -/

namespace Page.Grows

theorem plain (p : Page) (indent : Nat) (split root : Bool) {text : String}
    (htext : Clean text.toList) : Grows p (p.plain indent split root text) := by
  have hspace : Clean " ".toList := .of_all (by decide)
  have hruns : ∀ q : Page, Grows q ((runs spaceClass text.toList).foldl (fun p run =>
      if run == [' '] && p.column > Page.width && split then p.foldLine indent
      else p.put (String.ofList run)) q) := by
    refine foldl fun q run hrun => ite (foldLine q indent) (put q ?_)
    rw [String.toList_ofList]
    exact htext.of_mem_runs hrun
  have hroot : Grows p (if root then { p with openEnded := true } else p) :=
    ite (of_pieces rfl) (refl p)
  unfold Page.plain
  refine hroot.trans (ite (refl _) ?_)
  exact (ite (refl _) (put _ hspace)).trans ((of_pieces rfl).trans (hruns _))

theorem breakLines {α : Type} (p : Page) (l : List α) :
    Grows p (l.foldl (fun p _ => p.breakLine) p) :=
  foldl (fun q _ _ => breakLine q) p

theorem quotedBreaks (p : Page) (indent : Nat) (run : List Char) :
    Grows p (p.quotedBreaks indent run) :=
  (ite (breakLine p) (refl p)).trans ((breakLines _ run).trans (toIndent _ indent))

theorem singleRuns (indent : Nat) (split first : Bool) {parts : List (List Char)}
    (hparts : ∀ run ∈ parts, Clean run) (p : Page) :
    Grows p (Page.singleRuns indent split first parts p) := by
  induction parts generalizing first p with
  | nil => exact refl p
  | cons run rest ih =>
    obtain ⟨hrun, hrest⟩ := List.forall_mem_cons.1 hparts
    rw [Page.singleRuns]
    refine (ite (toIndent p indent) (ite (quotedBreaks p indent run) (put p ?_))).trans
      (ih false hrest _)
    exact clean_join (List.forall_mem_map.2 fun c hc => clean_singleQuoted (hrun c hc))

theorem single (p : Page) (indent : Nat) (split : Bool) {text : String}
    (htext : Clean text.toList) : Grows p (p.single indent split text) := by
  have hquote : Clean "'".toList := .of_all (by decide)
  exact ((mark p hquote true).trans (singleRuns indent split true
    (fun run hrun => htext.of_mem_runs hrun) _)).trans (mark _ hquote false)

theorem escapedBreak (p : Page) (indent : Nat) (next : Option Char) :
    Grows p (p.escapedBreak indent next) := by
  have hslash : Clean "\\".toList := .of_all (by decide)
  have hbreak : Grows p ((p.put "\\").foldLine indent) := (put p hslash).trans (foldLine _ indent)
  exact ite (hbreak.trans (put _ hslash)) hbreak

/-- Characters that wait to be written are written as they are. -/
theorem flush (p : Page) {held : List Char} (hheld : Clean held) :
    Grows p (if held.isEmpty then p else p.put (String.ofList held.reverse)) := by
  refine ite (refl p) (put p ?_)
  rw [String.toList_ofList]
  exact hheld.reverse

theorem doubleChars (indent : Nat) (split first : Bool) {held : List Char} (hheld : Clean held)
    (cs : List Char) (p : Page) : Grows p (Page.doubleChars indent split first held cs p) := by
  induction cs generalizing first held p with
  | nil => exact flush p hheld
  | cons c rest ih =>
    have hempty : Clean [] := fun _ hc => nomatch hc
    have hescape := clean_escapeText c
    have hflush := flush p hheld
    rw [Page.doubleChars]
    by_cases hc : isEscaped c = true
    · rw [if_pos hc]
      refine ((hflush.trans (put _ hescape)).trans ?_).trans (ih false hempty _)
      exact ite (escapedBreak _ indent _) (refl _)
    · rw [if_neg hc]
      have hplain : isSpecial c = false := by
        simp only [isEscaped, isSpecial, Bool.or_eq_true, not_or, Bool.not_eq_true] at hc ⊢
        simp_all
      have hone : Clean [c] := fun d hd => by rwa [List.mem_singleton.1 hd]
      have hmore : Clean (c :: held) := List.forall_mem_cons.2 ⟨hplain, hheld⟩
      exact ite ((hflush.trans (escapedBreak _ indent (some c))).trans (ih false hone _))
        (ih false hmore p)

theorem double (p : Page) (indent : Nat) (split : Bool) (text : String) :
    Grows p (p.double indent split text) := by
  have hquote : Clean "\"".toList := .of_all (by decide)
  have hempty : Clean [] := fun _ hc => nomatch hc
  exact ((mark p hquote true).trans (doubleChars indent split true hempty text.toList _)).trans
    (mark _ hquote false)

theorem literalRuns (indent : Nat) {parts : List (List Char)}
    (hparts : ∀ run ∈ parts, Clean run) (p : Page) :
    Grows p (Page.literalRuns indent parts p) := by
  induction parts generalizing p with
  | nil => exact refl p
  | cons run rest ih =>
    obtain ⟨hrun, hrest⟩ := List.forall_mem_cons.1 hparts
    rw [Page.literalRuns]
    have hbreaks := breakLines p run
    have hline : Grows p { p with pieces := String.ofList run :: p.pieces } :=
      of_cons rfl (by rwa [String.toList_ofList])
    exact (ite (ite hbreaks (hbreaks.trans (toIndent _ indent)))
      (ite (hline.trans (breakLine _)) hline)).trans (ih hrest _)

theorem literal (p : Page) (indent : Nat) {text : String} (htext : Clean text.toList) :
    Grows p (p.literal indent text) := by
  have hmark : Clean ("|" ++ blockHints text.toList).toList := by
    rw [String.toList_append]
    exact .append (.of_all (by decide)) (clean_blockHints _)
  have hheader : Grows p { p.mark ("|" ++ blockHints text.toList) true with
      openEnded := (blockHints text.toList).endsWith "+" } :=
    (mark p hmark true).trans (of_pieces rfl)
  unfold Page.literal
  refine (hheader.trans (breakLine _)).trans (Grows.trans ?_
    (literalRuns indent (fun run hrun => htext.of_mem_runs hrun) _))
  exact ite (toIndent _ indent) (refl _)

theorem scalar (p : Page) (indent : Nat) (root asKey : Bool) (form : ScalarForm) :
    Grows p (p.scalar indent root asKey form) := by
  have htext : form.style asKey ≠ .double → Clean form.text.toList := form.clean_of_style
  have htag : Grows p (if form.needsTag (form.style asKey) then
      p.mark (ScalarForm.tagText form.tag) true else p) :=
    ite (mark p (clean_tagText form.tag) true) (refl p)
  unfold Page.scalar
  refine htag.trans ?_
  cases hstyle : form.style asKey with
  | plain => exact plain _ indent _ root (htext (by simp [hstyle]))
  | single => exact single _ indent _ (htext (by simp [hstyle]))
  | double => exact double _ indent _ form.text
  | literal => exact literal _ indent (htext (by simp [hstyle]))

end Page.Grows

/-! ## Values -/

/-- Writes a key with the mark after it, in one line or on lines of their own. -/
def writeKey (indent : Nat) (k : Value) (p : Page) : Result Page :=
  if isSimpleKey k then do
    let p ← writeAt .key (some indent) k p
    pure (p.mark ":" false)
  else do
    let p ← writeAt .entry (some indent) k (p.bullet "?")
    pure ((p.toIndent indent).bullet ":")

theorem writeEntries_cons (indent : Nat) (k v : Value) (rest : List (Value × Value)) (p : Page) :
    writeEntries indent ((k, v) :: rest) p =
      writeKey indent k (p.toIndent indent) >>= fun p =>
        writeAt .entry (some indent) v p >>= writeEntries indent rest := by
  rw [writeEntries, writeKey]
  split <;> simp only [bind_assoc, pure_bind]

theorem writeElements_cons (indent : Nat) (k : Value) (rest : List Value) (p : Page) :
    writeElements indent (k :: rest) p =
      writeKey indent k (p.toIndent indent) >>= fun p =>
        writeElements indent rest (p.scalar (scalarIndent (some indent)) false false
          { tag := .null, text := "null" }) := by
  rw [writeElements, writeKey]
  split <;> simp only [bind_assoc, pure_bind]

/-- A key is written like the value that it is. -/
theorem writeKey_grows {indent : Nat} {k : Value}
    (hk : ∀ place p q, writeAt place (some indent) k p = .ok q → p.Grows q) {p q : Page}
    (h : writeKey indent k p = .ok q) : p.Grows q := by
  have hcolon : Clean ":".toList := .of_all (by decide)
  unfold writeKey at h
  split at h
  · obtain ⟨r, hr, h⟩ := Result.bind_eq_ok.1 h
    cases h
    exact (hk .key p r hr).trans (.mark r hcolon false)
  · obtain ⟨r, hr, h⟩ := Result.bind_eq_ok.1 h
    cases h
    have hquestion : p.Grows (p.bullet "?") := .bullet p (.of_all (by decide))
    exact (hquestion.trans (hk .entry _ r hr)).trans
      ((Page.Grows.toIndent r indent).trans (.bullet _ hcolon))

theorem writeAt_scalar_grows {place : Place} {indent : Option Nat} {v : Value} {p q : Page}
    (h : writeAt place indent v p = .ok q) (hlist : ∀ items, v ≠ .list items)
    (htuple : ∀ items, v ≠ .tuple items) (hmap : ∀ entries, v ≠ .map entries)
    (hset : ∀ items, v ≠ .set items) : p.Grows q := by
  rw [writeAt] at h
  · split at h
    · cases h
      exact .scalar p _ _ _ _
    · cases h
  · exact hlist
  · exact htuple
  · exact hmap
  · exact hset

mutual

theorem writeAt_grows : ∀ (place : Place) (indent : Option Nat) (v : Value) (p q : Page),
    writeAt place indent v p = .ok q → p.Grows q
  | place, indent, .list items, p, q, h => by
    rw [writeAt] at h
    split at h
    · cases h
      exact (Page.Grows.opening p (.of_all (by decide))).trans (.mark _ (.of_all (by decide)) false)
    · exact writeItems_grows _ items p q h
  | place, indent, .tuple items, p, q, h => by
    rw [writeAt] at h
    split at h
    · cases h
      exact (Page.Grows.opening p (.of_all (by decide))).trans (.mark _ (.of_all (by decide)) false)
    · exact writeItems_grows _ items p q h
  | _, indent, .map entries, p, q, h => by
    rw [writeAt] at h
    split at h
    · cases h
      exact (Page.Grows.opening p (.of_all (by decide))).trans (.mark _ (.of_all (by decide)) false)
    · exact writeEntries_grows _ entries p q h
  | _, indent, .set items, p, q, h => by
    rw [writeAt] at h
    have hmark : p.Grows (p.mark "!!set" true) := .mark p (.of_all (by decide)) true
    split at h
    · cases h
      exact hmark.trans ((Page.Grows.opening _ (.of_all (by decide))).trans
        (.mark _ (.of_all (by decide)) false))
    · exact hmark.trans (writeElements_grows _ items _ q h)
  | _, _, .null, _, _, h | _, _, .bool _, _, _, h | _, _, .int _, _, _, h | _, _, .float _, _, _, h
  | _, _, .str _, _, _, h | _, _, .bytes _, _, _, h | _, _, .date _, _, _, h
  | _, _, .datetime _, _, _, h | _, _, .undefined, _, _, h | _, _, .env _, _, _, h
  | _, _, .object _, _, _, h | _, _, .closure .., _, _, h | _, _, .literal _, _, _, h
  | _, _, .node _, _, _, h =>
    writeAt_scalar_grows h nofun nofun nofun nofun
termination_by structural _ _ v => v

theorem writeItems_grows : ∀ (indent : Nat) (items : List Value) (p q : Page),
    writeItems indent items p = .ok q → p.Grows q
  | _, [], p, q, h => by
    rw [writeItems] at h
    cases h
    exact .refl p
  | indent, v :: rest, p, q, h => by
    rw [writeItems] at h
    obtain ⟨r, hr, h⟩ := Result.bind_eq_ok.1 h
    have hbullet : p.Grows ((p.toIndent indent).bullet "-") :=
      (Page.Grows.toIndent p indent).trans (.bullet _ (.of_all (by decide)))
    exact (hbullet.trans (writeAt_grows .item _ v _ r hr)).trans
      (writeItems_grows indent rest r q h)
termination_by structural _ items => items

theorem writeEntries_grows : ∀ (indent : Nat) (entries : List (Value × Value)) (p q : Page),
    writeEntries indent entries p = .ok q → p.Grows q
  | _, [], p, q, h => by
    rw [writeEntries] at h
    cases h
    exact .refl p
  | indent, (k, v) :: rest, p, q, h => by
    rw [writeEntries_cons] at h
    obtain ⟨r, hr, h⟩ := Result.bind_eq_ok.1 h
    obtain ⟨s, hs, h⟩ := Result.bind_eq_ok.1 h
    have hkey : p.Grows r := (Page.Grows.toIndent p indent).trans
      (writeKey_grows (fun place p q => writeAt_grows place (some indent) k p q) hr)
    exact (hkey.trans (writeAt_grows .entry _ v r s hs)).trans
      (writeEntries_grows indent rest s q h)
termination_by structural _ entries => entries

theorem writeElements_grows : ∀ (indent : Nat) (items : List Value) (p q : Page),
    writeElements indent items p = .ok q → p.Grows q
  | _, [], p, q, h => by
    rw [writeElements] at h
    cases h
    exact .refl p
  | indent, k :: rest, p, q, h => by
    rw [writeElements_cons] at h
    obtain ⟨r, hr, h⟩ := Result.bind_eq_ok.1 h
    have hkey : p.Grows r := (Page.Grows.toIndent p indent).trans
      (writeKey_grows (fun place p q => writeAt_grows place (some indent) k p q) hr)
    exact (hkey.trans (.scalar r _ _ _ _)).trans (writeElements_grows indent rest _ q h)
termination_by structural _ items => items

end

/-- The text of a page is the start of the text of every page that it grows to. -/
theorem Page.Grows.text {p q : Page} (h : p.Grows q) :
    ∃ more, q.text.toList = p.text.toList ++ more ∧ Clean more := by
  obtain ⟨pieces, hq, hpieces⟩ := h
  refine ⟨(String.join pieces.reverse).toList, ?_, ?_⟩
  · simp [Page.text, hq]
  · exact clean_join fun s hs => hpieces s (List.mem_reverse.1 hs)

/-- Whatever is written after the last value of a document is on the page as well. -/
theorem write_grows {v : Value} {text : String} (h : write v = .ok text) :
    ∃ p q, writeAt .root none v {} = .ok p ∧ p.Grows q ∧ text = q.text := by
  obtain ⟨p, hp, h⟩ := Result.bind_eq_ok.1 h
  cases h
  refine ⟨p, _, hp, ?_, rfl⟩
  have hend := Page.Grows.toIndent p 0
  exact .ite
    (hend.trans ((Page.Grows.mark _ (.of_all (by decide)) true).trans (.toIndent _ 0))) hend

/-- Only line feeds and what is printable in ASCII is written. -/
theorem clean_write {v : Value} {text : String} (h : write v = .ok text) : Clean text.toList := by
  obtain ⟨p, q, hp, hpq, rfl⟩ := write_grows h
  obtain ⟨more, hmore, hclean⟩ := ((writeAt_grows .root none v {} p hp).trans hpq).text
  rw [hmore]
  exact .append (.of_all (by decide)) hclean

/-- The text of a map starts with what is written for its first key. -/
theorem write_map_key {k v : Value} {rest : List (Value × Value)} {text : String} {p : Page}
    (hk : writeKey 0 k {} = .ok p) (h : write (.map ((k, v) :: rest)) = .ok text) :
    ∃ more, text.toList = p.text.toList ++ more := by
  obtain ⟨q, r, hq, hqr, rfl⟩ := write_grows h
  have hentries : writeEntries 0 ((k, v) :: rest) {} = .ok q := by
    rw [writeAt] at hq
    exact hq
  have hstart : Page.toIndent {} 0 = {} := rfl
  rw [writeEntries_cons, hstart, hk, Result.ok_bind] at hentries
  obtain ⟨s, hs, hrest⟩ := Result.bind_eq_ok.1 hentries
  have hgrows : p.Grows r := ((writeAt_grows .entry _ v p s hs).trans
    (writeEntries_grows 0 rest s q hrest)).trans hqr
  obtain ⟨more, hmore, -⟩ := hgrows.text
  exact ⟨more, hmore⟩

end TreeScript.Yaml
