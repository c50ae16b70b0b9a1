import TreeScript.Proofs.JsonGrammar

/-!
# What the reader of JSON reads

A text is read as a value if it is the text of the value with space around it, and only then
(`Json.read?_eq_some_iff`). What a reader finds at the front of a text has a text there
(`Json.readers_found`), by induction on the fuel, which bounds the depth; and the text of a value is
read with fuel for its length (`Json.reads_text`), by induction on the depth.

Lists and maps are read in the same way up to their brackets and the reader of their parts, which is
what `Json.Collection` says.
-/

namespace TreeScript

namespace Json

theorem skipSpace_append {blank cs : List Char} (hblank : ∀ c ∈ blank, isSpace c = true)
    (hcs : cs.head?.any isSpace = false) : skipSpace (blank ++ cs) = cs := by
  rw [skipSpace, List.dropWhile_append_of_pos hblank]
  cases cs with
  | nil => rfl
  | cons c rest => exact List.dropWhile_cons_of_neg (by simpa using hcs)

theorem skipSpace_split (cs : List Char) :
    ∃ gap, cs = gap ++ skipSpace cs ∧ gap.all isSpace = true :=
  ⟨cs.takeWhile isSpace, List.takeWhile_append_dropWhile.symm,
    List.all_eq_true.2 fun _ hc => List.mem_takeWhile_imp hc⟩

/-- A number ends where space or a character that belongs to no number follows. -/
theorem endsNumber_blank {blank rest : List Char} {c : Char}
    (hblank : ∀ c ∈ blank, isSpace c = true) (hc : endsNumber [c] = true) :
    endsNumber (blank ++ c :: rest) = true := by
  cases blank with
  | nil => exact hc
  | cons b more =>
    have hb := hblank b List.mem_cons_self
    simp only [isSpace, Bool.or_eq_true, beq_iff_eq] at hb
    rcases hb with ((rfl | rfl) | rfl) | rfl <;> rfl

/-- What a reader finds with some fuel has a text in front of what is left. -/
def Found {α : Type} (read : Nat → List Char → Option (α × List Char)) (P : List Char → α → Prop)
    (fuel : Nat) : Prop :=
  ∀ {cs rest a}, read fuel cs = some (a, rest) → ∃ text, cs = text ++ rest ∧ P text a

/-- A reader finds something in a text and stops at its end, whatever follows that does not go on
with a number. Fuel that is twice the length of the text is enough. -/
def Reads {α : Type} (read : Nat → List Char → Option (α × List Char)) (text : List Char) (a : α) :
    Prop :=
  ∀ {fuel} rest, 2 * text.length ≤ fuel → endsNumber rest = true →
    read fuel (text ++ rest) = some (a, rest)

/-! ## Collections -/

/-- How a kind of collections is read: from its opening bracket on, part by part. -/
structure Collection {α : Type} (opening closing : Char)
    (read : Nat → List Char → Option (List α × List Char))
    (part : Nat → List Char → Option (α × List Char)) (make : List α → Value) : Prop where
  closing_ends : isSpace closing = false ∧ endsNumber [closing] = true
  part_starts : ∀ {fuel cs found}, part fuel cs = some found →
    ∃ c rest, cs = c :: rest ∧ isSpace c = false ∧ c ≠ closing
  parts_zero : ∀ cs, read 0 cs = none
  /-- A part is followed by the closing bracket, or by a comma and further parts. -/
  parts_succ : ∀ {fuel cs as rest}, read (fuel + 1) cs = some (as, rest) ↔
    ∃ a after, part fuel cs = some (a, after) ∧
      (skipSpace after = closing :: rest ∧ as = [a] ∨
        ∃ others as', skipSpace after = ',' :: others ∧
          read fuel (skipSpace others) = some (as', rest) ∧ as = a :: as')
  /-- The opening bracket is followed by the closing one, or by the parts. -/
  value_succ : ∀ {fuel cs v rest}, readValue? (fuel + 1) (opening :: cs) = some (v, rest) ↔
    (skipSpace cs = closing :: rest ∧ v = make []) ∨
      ((∀ rest', skipSpace cs ≠ closing :: rest') ∧
        ∃ as, read fuel (skipSpace cs) = some (as, rest) ∧ v = make as)

theorem readValue?_starts {fuel : Nat} {cs : List Char} {found : Value × List Char}
    (h : readValue? fuel cs = some found) :
    ∃ c rest, cs = c :: rest ∧ isSpace c = false ∧ c ≠ ']' := by
  cases fuel with
  | zero => cases h
  | succ fuel =>
    cases cs with
    | nil => cases h
    | cons c rest =>
      refine ⟨c, rest, rfl, ?_, ?_⟩
      · rw [← Bool.not_eq_true]
        intro hspace
        simp only [isSpace, Bool.or_eq_true, beq_iff_eq] at hspace
        rcases hspace with ((rfl | rfl) | rfl) | rfl <;> cases h
      · rintro rfl
        cases h

theorem lists : Collection '[' ']' readItems? readValue? Value.list where
  closing_ends := ⟨rfl, rfl⟩
  part_starts h := readValue?_starts h
  parts_zero _ := rfl
  parts_succ {fuel cs as rest} := by
    rw [readItems?]
    constructor
    · intro h
      obtain ⟨⟨v, after⟩, hread, h⟩ := Option.bind_eq_some_iff.1 h
      refine ⟨v, after, hread, ?_⟩
      dsimp only at h
      split at h
      · rename_i hskip
        cases h
        exact .inl ⟨hskip, rfl⟩
      · rename_i others hskip
        obtain ⟨⟨vs, rest'⟩, hmore, hpair⟩ := Option.bind_eq_some_iff.1 h
        cases hpair
        exact .inr ⟨others, vs, hskip, hmore, rfl⟩
      · cases h
    · rintro ⟨v, after, hread, ⟨hskip, rfl⟩ | ⟨others, vs, hskip, hmore, rfl⟩⟩
      · simp [hread, hskip]
      · simp [hread, hskip, hmore]
  value_succ {fuel cs v rest} := by
    rw [readValue?]
    split
    · rename_i rest' hskip
      simp [hskip, eq_comm, and_comm]
    · rename_i hskip
      constructor
      · intro h
        obtain ⟨⟨vs, rest'⟩, hread, hpair⟩ := Option.bind_eq_some_iff.1 h
        cases hpair
        exact .inr ⟨hskip, vs, hread, rfl⟩
      · rintro (⟨heq, -⟩ | ⟨-, vs, hread, rfl⟩)
        · exact absurd heq (hskip rest)
        · simp [hread]

/-- The entry at the start of a text, with the text after it: a key in quotes, a colon and a
value. -/
def readPair? (fuel : Nat) : List Char → Option ((Value × Value) × List Char)
  | '"' :: rest => do
    let (key, rest) ← readString? rest
    match skipSpace rest with
    | ':' :: rest => do
      let (v, rest) ← readValue? fuel (skipSpace rest)
      pure ((.str key, v), rest)
    | _ => none
  | _ => none

theorem readPair?_eq_some {fuel : Nat} {cs after : List Char} {e : Value × Value} :
    readPair? fuel cs = some (e, after) ↔
      ∃ text key colon valueText v, cs = '"' :: text ∧ readString? text = some (key, colon) ∧
        skipSpace colon = ':' :: valueText ∧
        readValue? fuel (skipSpace valueText) = some (v, after) ∧ e = (.str key, v) := by
  constructor
  · intro h
    unfold readPair? at h
    split at h
    · rename_i text
      obtain ⟨⟨key, colon⟩, hkey, h⟩ := Option.bind_eq_some_iff.1 h
      dsimp only at h
      split at h
      · rename_i valueText hcolon
        obtain ⟨⟨v, after'⟩, hvalue, hpair⟩ := Option.bind_eq_some_iff.1 h
        cases hpair
        exact ⟨text, key, colon, valueText, v, rfl, hkey, hcolon, hvalue, rfl⟩
      · cases h
    · cases h
  · rintro ⟨text, key, colon, valueText, v, rfl, hkey, hcolon, hvalue, rfl⟩
    simp [readPair?, hkey, hcolon, hvalue]

theorem maps : Collection '\x7b' '\x7d' readEntries? readPair?
    (fun es => .map (Bindings.ofPairs es)) where
  closing_ends := ⟨rfl, rfl⟩
  part_starts {fuel cs found} h := by
    obtain ⟨text, key, colon, valueText, v, rfl, -⟩ := readPair?_eq_some.1 h
    exact ⟨'"', text, rfl, rfl, by decide⟩
  parts_zero _ := rfl
  parts_succ {fuel cs as rest} := by
    constructor
    · intro h
      rw [readEntries?.eq_def] at h
      dsimp only at h
      split at h
      · rename_i text
        obtain ⟨⟨key, colon⟩, hkey, h⟩ := Option.bind_eq_some_iff.1 h
        dsimp only at h
        split at h
        · rename_i valueText hcolon
          obtain ⟨⟨v, after⟩, hread, h⟩ := Option.bind_eq_some_iff.1 h
          have hpair := readPair?_eq_some.2
            ⟨text, key, colon, valueText, v, rfl, hkey, hcolon, hread, rfl⟩
          refine ⟨_, after, hpair, ?_⟩
          dsimp only at h
          split at h
          · rename_i hskip
            cases h
            exact .inl ⟨hskip, rfl⟩
          · rename_i others hskip
            obtain ⟨⟨es, rest'⟩, hmore, hpair⟩ := Option.bind_eq_some_iff.1 h
            cases hpair
            exact .inr ⟨others, es, hskip, hmore, rfl⟩
          · cases h
        · cases h
      · cases h
    · rintro ⟨e, after, hentry, hrest⟩
      obtain ⟨text, key, colon, valueText, v, rfl, hkey, hcolon, hvalue, rfl⟩ :=
        readPair?_eq_some.1 hentry
      rcases hrest with ⟨hskip, rfl⟩ | ⟨others, es, hskip, hmore, rfl⟩
      · simp [readEntries?, hkey, hcolon, hvalue, hskip]
      · simp [readEntries?, hkey, hcolon, hvalue, hskip, hmore]
  value_succ {fuel cs v rest} := by
    rw [readValue?]
    split
    · rename_i rest' hskip
      simp [hskip, eq_comm, and_comm, show Bindings.ofPairs [] = [] from rfl]
    · rename_i hskip
      constructor
      · intro h
        obtain ⟨⟨es, rest'⟩, hread, hpair⟩ := Option.bind_eq_some_iff.1 h
        cases hpair
        exact .inr ⟨hskip, es, hread, rfl⟩
      · rintro (⟨heq, -⟩ | ⟨-, es, hread, rfl⟩)
        · exact absurd heq (hskip rest)
        · simp [hread]

namespace Collection

open FlowStyle (Parts Bracketed)

variable {α : Type} {opening closing : Char} {read : Nat → List Char → Option (List α × List Char)}
  {part : Nat → List Char → Option (α × List Char)} {make : List α → Value}
  {P : List Char → α → Prop} (K : Collection opening closing read part make)

include K

theorem skipSpace_closing {gap : List Char} (hgap : gap.all isSpace = true) (rest : List Char) :
    skipSpace (gap ++ closing :: rest) = closing :: rest :=
  skipSpace_append (List.all_eq_true.1 hgap) (by simpa using K.closing_ends.1)

/-- The parts of a collection start neither with space nor with the closing bracket. -/
theorem reads_starts {text : List Char} {as : List α} (h : Reads read text as) :
    ∃ c rest, text = c :: rest ∧ isSpace c = false ∧ c ≠ closing := by
  have hread := h [] (Nat.le_refl _) rfl
  rw [List.append_nil] at hread
  generalize 2 * text.length = fuel at hread
  cases fuel with
  | zero =>
    rw [K.parts_zero] at hread
    cases hread
  | succ fuel =>
    obtain ⟨a, after, hpart, -⟩ := K.parts_succ.1 hread
    exact K.part_starts hpart

theorem skipSpace_parts {text gap : List Char} {as : List α} (h : Reads read text as)
    (hgap : gap.all isSpace = true) (rest : List Char) :
    skipSpace (gap ++ (text ++ rest)) = text ++ rest := by
  obtain ⟨c, text', rfl, hc, -⟩ := K.reads_starts h
  exact skipSpace_append (List.all_eq_true.1 hgap) (by simpa using hc)

theorem reads_parts {text : List Char} {as : List α}
    (hpart : ∀ {text a}, P text a → Reads part text a) (h : Parts isSpace closing P text as) :
    Reads read text as := by
  induction h with
  | @last text gap a h hgap =>
    intro fuel rest hfuel _
    simp only [List.length_append, List.length_singleton] at hfuel
    obtain ⟨fuel, rfl⟩ : ∃ n, fuel = n + 1 := ⟨fuel - 1, by omega⟩
    rw [List.append_assoc, List.append_assoc, List.singleton_append]
    have hends : endsNumber (gap ++ closing :: rest) = true :=
      endsNumber_blank (List.all_eq_true.1 hgap) K.closing_ends.2
    exact K.parts_succ.2 ⟨a, _, hpart h _ (by omega) hends,
      .inl ⟨K.skipSpace_closing hgap rest, rfl⟩⟩
  | @more text gap gap' others a as h hgap hgap' hothers ih =>
    intro fuel rest hfuel hrest
    simp only [List.length_append, List.length_cons] at hfuel
    obtain ⟨fuel, rfl⟩ : ∃ n, fuel = n + 1 := ⟨fuel - 1, by omega⟩
    rw [List.append_assoc, List.append_assoc, List.cons_append, List.append_assoc]
    have hends : endsNumber (gap ++ ',' :: (gap' ++ (others ++ rest))) = true :=
      endsNumber_blank (List.all_eq_true.1 hgap) rfl
    refine K.parts_succ.2 ⟨a, _, hpart h _ (by omega) hends, .inr
      ⟨_, as, skipSpace_append (List.all_eq_true.1 hgap) rfl, ?_, rfl⟩⟩
    rw [K.skipSpace_parts ih hgap']
    exact ih rest (by omega) hrest

theorem reads_bracketed {text : List Char} {as : List α}
    (hpart : ∀ {text a}, P text a → Reads part text a)
    (h : Bracketed isSpace opening closing P text as) : Reads readValue? text (make as) := by
  intro fuel rest hfuel hrest
  cases h with
  | @nil gap hgap =>
    simp only [List.length_cons] at hfuel
    obtain ⟨fuel, rfl⟩ : ∃ n, fuel = n + 1 := ⟨fuel - 1, by omega⟩
    rw [List.cons_append, List.append_assoc, List.singleton_append]
    exact K.value_succ.2 (.inl ⟨K.skipSpace_closing hgap rest, rfl⟩)
  | @parts gap inner _ hgap h =>
    simp only [List.length_cons, List.length_append] at hfuel
    obtain ⟨fuel, rfl⟩ : ∃ n, fuel = n + 1 := ⟨fuel - 1, by omega⟩
    have hreads : Reads read inner as := K.reads_parts hpart h
    have hskip := K.skipSpace_parts hreads hgap rest
    obtain ⟨c, inner', hstart, -, hc⟩ := K.reads_starts hreads
    rw [List.cons_append, List.append_assoc]
    refine K.value_succ.2 (.inr ⟨fun rest' heq => hc ?_, as, ?_, rfl⟩)
    · rw [hskip, hstart] at heq
      exact (List.cons.inj heq).1
    · rw [hskip]
      exact hreads rest (by omega) hrest

theorem found_parts {fuel : Nat} (hpart : Found part P fuel)
    (hparts : Found read (Parts isSpace closing P) fuel) :
    Found read (Parts isSpace closing P) (fuel + 1) := by
  intro cs rest as h
  obtain ⟨a, after, hread, hrest⟩ := K.parts_succ.1 h
  obtain ⟨text, rfl, htext⟩ := hpart hread
  obtain ⟨gap, hafter, hgap⟩ := skipSpace_split after
  rcases hrest with ⟨hskip, rfl⟩ | ⟨others, as', hskip, hmore, rfl⟩
  · rw [hskip] at hafter
    refine ⟨_, ?_, .last htext hgap⟩
    rw [hafter]
    simp
  · rw [hskip] at hafter
    obtain ⟨gap', hothers, hgap'⟩ := skipSpace_split others
    obtain ⟨text', htext', hparts'⟩ := hparts hmore
    refine ⟨_, ?_, .more htext hgap hgap' hparts'⟩
    rw [hafter, hothers, htext']
    simp

theorem found_bracketed {fuel : Nat} (hparts : Found read (Parts isSpace closing P) fuel)
    {cs rest : List Char} {v : Value} (h : readValue? (fuel + 1) (opening :: cs) = some (v, rest)) :
    ∃ text as, opening :: cs = text ++ rest ∧ Bracketed isSpace opening closing P text as ∧
      v = make as := by
  obtain ⟨gap, hcs, hgap⟩ := skipSpace_split cs
  rcases K.value_succ.1 h with ⟨hskip, rfl⟩ | ⟨-, as, hread, rfl⟩
  · rw [hskip] at hcs
    refine ⟨_, [], ?_, .nil hgap, rfl⟩
    rw [hcs]
    simp
  · obtain ⟨text, htext, hparts'⟩ := hparts hread
    refine ⟨_, as, ?_, .parts hgap hparts', rfl⟩
    rw [hcs, htext]
    simp

end Collection

/-! ## What the readers find -/

theorem found_entry {fuel : Nat} {P : List Char → Value → Prop} (hvalue : Found readValue? P fuel) :
    Found readPair? (style.Entry P) fuel := by
  intro cs rest e h
  obtain ⟨text, key, colon, valueText, v, rfl, hkey, hcolon, hread, rfl⟩ := readPair?_eq_some.1 h
  obtain ⟨body, chars, rfl, hbody, rfl⟩ := readString?_sound hkey
  obtain ⟨gap, hgap, hspace⟩ := skipSpace_split colon
  obtain ⟨gap', hgap', hspace'⟩ := skipSpace_split valueText
  obtain ⟨text, htext, hP⟩ := hvalue hread
  refine ⟨'"' :: (body ++ '"' :: gap) ++ ':' :: (gap' ++ text), ?_,
    .intro (.intro hbody hspace) hspace' hP⟩
  rw [hgap, hcolon, hgap', htext]
  simp

theorem found_value {fuel : Nat} {P : List Char → Value → Prop}
    (hitems : Found readItems? (FlowStyle.Parts isSpace ']' P) fuel)
    (hentries : Found readEntries? (FlowStyle.Parts isSpace '\x7d' (style.Entry P)) fuel) :
    Found readValue? (style.Level P) (fuel + 1) := by
  intro cs rest v h
  have hread := h
  rw [readValue?.eq_def] at hread
  dsimp only at hread
  split at hread
  · obtain ⟨⟨s, rest'⟩, hstring, hpair⟩ := Option.bind_eq_some_iff.1 hread
    cases hpair
    obtain ⟨body, chars, rfl, hbody, rfl⟩ := readString?_sound hstring
    exact ⟨'"' :: (body ++ ['"']), by simp, .scalar (.quoted hbody)⟩
  · obtain ⟨text, vs, htext, hlist, rfl⟩ := lists.found_bracketed hitems h
    exact ⟨text, htext, .list hlist⟩
  · obtain ⟨text, es, htext, hmap, rfl⟩ := maps.found_bracketed hentries h
    exact ⟨text, htext, .map hmap⟩
  · obtain ⟨text, rfl, hword⟩ := readWord?_sound hread
    exact ⟨text, rfl, .scalar (.word hword)⟩

/-- The fuel bounds the depth. The readers call each other with less of it. -/
theorem readers_found (fuel : Nat) : Found readValue? (style.Text fuel) fuel ∧
    Found readItems? (FlowStyle.Parts isSpace ']' (style.Text fuel)) fuel ∧
    Found readEntries? (FlowStyle.Parts isSpace '\x7d' (style.Entry (style.Text fuel))) fuel := by
  induction fuel with
  | zero => exact ⟨nofun, nofun, nofun⟩
  | succ fuel ih =>
    obtain ⟨hvalue, hitems, hentries⟩ := ih
    have hvalue' : Found readValue? (style.Text (fuel + 1)) fuel := by
      intro cs rest v h
      obtain ⟨text, hcs, htext⟩ := hvalue h
      exact ⟨text, hcs, htext.succ⟩
    refine ⟨found_value hitems hentries, lists.found_parts hvalue' ?_,
      maps.found_parts (found_entry hvalue') ?_⟩
    · intro cs rest vs h
      obtain ⟨text, hcs, htext⟩ := hitems h
      exact ⟨text, hcs, htext.imp FlowStyle.Text.succ⟩
    · intro cs rest es h
      obtain ⟨text, hcs, htext⟩ := hentries h
      exact ⟨text, hcs, htext.imp (FlowStyle.Entry.imp FlowStyle.Text.succ)⟩

/-! ## What has a text is read -/

theorem WordText.starts {text : List Char} {v : Value} (h : WordText text v) :
    ∃ c rest, text = c :: rest ∧ c ≠ '"' ∧ c ≠ '[' ∧ c ≠ '\x7b' := by
  cases h with
  | null | yes | no | nan => exact ⟨_, _, rfl, by decide, by decide, by decide⟩
  | infinity negative => cases negative <;> exact ⟨_, _, rfl, by decide, by decide, by decide⟩
  | @number negative text v h =>
    obtain ⟨d, more, rfl, hd⟩ := h.starts
    cases negative with
    | true => exact ⟨_, _, rfl, by decide, by decide, by decide⟩
    | false =>
      refine ⟨d, more, rfl, ?_, ?_, ?_⟩
      all_goals
        rintro rfl
        cases hd

theorem ScalarText.reads {text : List Char} {v : Value} (h : ScalarText text v) :
    Reads readValue? text v := by
  intro fuel rest hfuel hrest
  cases h with
  | word h =>
    obtain ⟨c, more, rfl, hquote, hlist, hmap⟩ := h.starts
    simp only [List.length_cons] at hfuel
    obtain ⟨fuel, rfl⟩ : ∃ n, fuel = n + 1 := ⟨fuel - 1, by omega⟩
    rw [List.cons_append, readValue?]
    · exact h.read hrest
    · rintro _ ⟨⟩
      exact hquote rfl
    · rintro _ ⟨⟩
      exact hlist rfl
    · rintro _ ⟨⟩
      exact hmap rfl
  | @quoted body chars h =>
    simp only [List.length_cons] at hfuel
    obtain ⟨fuel, rfl⟩ : ∃ n, fuel = n + 1 := ⟨fuel - 1, by omega⟩
    rw [List.cons_append, List.append_assoc, List.singleton_append, readValue?, h.readString?]
    rfl

/-- Space in front of what is read as a value is skipped. -/
theorem Reads.skipSpace {text gap : List Char} {v : Value} (h : Reads readValue? text v)
    (hgap : gap.all isSpace = true) (rest : List Char) :
    Json.skipSpace (gap ++ (text ++ rest)) = text ++ rest := by
  have hread := h [] (Nat.le_refl _) rfl
  rw [List.append_nil] at hread
  obtain ⟨c, text', rfl, hc, -⟩ := readValue?_starts hread
  exact skipSpace_append (List.all_eq_true.1 hgap) (by simpa using hc)

theorem reads_entry {P : List Char → Value → Prop}
    (hP : ∀ {text v}, P text v → Reads readValue? text v) {text : List Char} {e : Value × Value}
    (h : style.Entry P text e) : Reads readPair? text e := by
  obtain @⟨_, gap', text, key, v, ⟨hbody, hgap⟩, hgap', h⟩ := h
  intro fuel rest hfuel hrest
  simp only [List.length_cons, List.length_append] at hfuel
  have hreads : Reads readValue? text v := hP h
  refine readPair?_eq_some.2 ⟨_, _, _, gap' ++ (text ++ rest), v, by simp, hbody.readString? _,
    skipSpace_append (List.all_eq_true.1 hgap) rfl, ?_, rfl⟩
  rw [hreads.skipSpace hgap']
  exact hreads rest (by omega) hrest

theorem reads_text {depth : Nat} {text : List Char} {v : Value} (h : style.Text depth text v) :
    Reads readValue? text v := by
  induction depth generalizing text v with
  | zero => cases h
  | succ depth ih =>
    cases h with
    | scalar h => exact ScalarText.reads h
    | list h => exact lists.reads_bracketed ih h
    | map h => exact maps.reads_bracketed (reads_entry ih) h

/-- A text is JSON as a whole if it is the text of a value with space around it. -/
theorem read?_eq_some_iff {text : String} {v : Value} :
    read? text = some v ↔ ∃ before inner after depth, text.toList = before ++ (inner ++ after) ∧
      before.all isSpace = true ∧ style.Text depth inner v ∧ after.all isSpace = true := by
  constructor
  · intro h
    obtain ⟨⟨w, rest⟩, hread, hrest⟩ := Option.bind_eq_some_iff.1 h
    dsimp only at hrest
    split at hrest
    · rename_i hempty
      cases hrest
      obtain ⟨inner, hinner, htext⟩ := (readers_found _).1 hread
      obtain ⟨before, hsplit, hbefore⟩ := skipSpace_split text.toList
      rw [hinner] at hsplit
      exact ⟨before, inner, rest, _, hsplit, hbefore, htext,
        List.all_eq_true.2 (List.dropWhile_eq_nil_iff.1 (List.isEmpty_iff.1 hempty))⟩
    · cases hrest
  · rintro ⟨before, inner, after, depth, hsplit, hbefore, htext, hafter⟩
    have hreads : Reads readValue? inner v := reads_text htext
    have hends : endsNumber after = true := by
      cases after with
      | nil => rfl
      | cons c after =>
        have hc := List.all_eq_true.1 hafter c List.mem_cons_self
        simp only [isSpace, Bool.or_eq_true, beq_iff_eq] at hc
        rcases hc with ((rfl | rfl) | rfl) | rfl <;> rfl
    have hskip : skipSpace after = [] := List.dropWhile_eq_nil_iff.2 (List.all_eq_true.1 hafter)
    rw [read?, hsplit]
    dsimp only
    rw [hreads.skipSpace hbefore, hreads after (by rw [List.length_append]; omega) hends]
    simp [hskip]

end Json

end TreeScript
