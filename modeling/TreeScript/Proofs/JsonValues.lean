import Mathlib.Data.List.Forall2
import TreeScript.Proofs.Basic
import TreeScript.Proofs.JsonReading

/-!
# The JSON text of a value

A document is a value that JSON tells from all others (`Value.isDocument`). It is written, in any
style, as a text that it has in JSON (`Json.exists_writeAt`), so that it is read back
(`Json.Denotes.read?_eq`).

A text belongs to a value by the grammar alone (`Json.Denotes`): strings, words and integers are
written as they stand there, and so are brackets around the texts of elements or entries.
-/

namespace TreeScript

namespace Json

/-! ## Strings and integers -/

theorem UnitText.hexPadded {unit : Nat} (h : unit < 0x10000) :
    UnitText (Text.hexPadded 4 unit).toList unit :=
  ⟨Text.length_hexPadded (by decide) (by omega), Text.ofHex?_hexPadded 4 unit⟩

/-- The escapes of the units of a character stand for the character. -/
theorem CharsText.utf16Escape (c : Char) {body chars : List Char} (h : CharsText body chars) :
    CharsText ((Json.utf16Escape c.toNat).toList ++ body) (c :: chars) := by
  have hvalid := toNat_valid c
  by_cases hbasic : c.toNat < 0x10000
  · have hlone : ¬(0xd800 ≤ c.toNat && c.toNat ≤ 0xdbff) = true := by
      simp only [Bool.and_eq_true, decide_eq_true_eq]
      omega
    have hunit := CharsText.unit (.hexPadded hbasic) (fun hhigh => absurd hhigh hlone) h
    rw [Char.ofNat_toNat] at hunit
    rw [Json.utf16Escape, if_pos hbasic, toList_unitEscape]
    exact hunit
  · obtain ⟨high, low, hescape, hhigh, hlow, hcode⟩ := utf16Escape_pair hbasic (by omega)
    have hfirst : UnitText (Text.hexPadded 4 high).toList high := .hexPadded (by omega)
    have hsecond : UnitText (Text.hexPadded 4 low).toList low := .hexPadded (by omega)
    have hpair := CharsText.pair hfirst (by simp [hhigh]) hsecond (by simp [hlow]) h
    rw [hcode, Char.ofNat_toNat] at hpair
    rw [hescape, String.toList_append, toList_unitEscape, toList_unitEscape]
    simpa using hpair

/-- A character of a string is written as itself or as an escape of it. -/
theorem CharsText.charText (ascii : Bool) (c : Char) {body chars : List Char}
    (h : CharsText body chars) :
    CharsText ((Json.charText ascii c).toList ++ body) (c :: chars) := by
  unfold Json.charText
  split_ifs with h1 h2 h3 h4 h5 h6 h7 h8
  all_goals simp only [beq_iff_eq] at *
  all_goals try subst c
  -- the seven characters with an escape of one letter
  any_goals exact .escape rfl h
  · exact h.utf16Escape c
  · have hcontrol : ¬c.toNat < 0x20 := by simp at h8; omega
    rw [Char.toString_eq_singleton, String.toList_singleton]
    exact .char h1 h2 hcontrol h

theorem charsText_join (ascii : Bool) (cs : List Char) :
    CharsText (String.join (cs.map (charText ascii))).toList cs := by
  induction cs with
  | nil => exact .nil
  | cons c cs ih =>
    rw [List.map_cons, String.join_cons, String.toList_append]
    exact ih.charText ascii c

theorem toList_stringText (ascii : Bool) (s : String) : (stringText ascii s).toList =
    '"' :: ((String.join (s.toList.map (charText ascii))).toList ++ ['"']) := by
  simp [stringText, String.toList_append]

theorem whole_toDigits (n : Nat) :
    Whole (Nat.toDigits 10 n) ∧ ofDigits (digitValues (Nat.toDigits 10 n)) = n := by
  obtain ⟨d, ds, heq, hzero⟩ := toDigits_eq_cons n
  refine ⟨⟨⟨by simp [heq], isDigit_toDigits⟩, fun hhead => ?_⟩, ?_⟩
  · rw [heq, List.head?_cons, Option.some.injEq] at hhead
    rw [hzero hhead]
    rfl
  · rw [digitValues, ofDigits_map_toNat, Nat.ofDigitChars_ten_toDigits]

theorem wordText_intText (i : Int) : WordText (intText i).toList (.int i) := by
  obtain ⟨d, ds, heq, -, htext⟩ := toList_intText i
  obtain ⟨hwhole, hvalue⟩ := whole_toDigits i.natAbs
  have hnumber (negative : Bool) :
      WordText (signText negative ++ (Nat.toDigits 10 i.natAbs ++ ([] ++ [])))
        (.int (if negative then -(i.natAbs : Int) else i.natAbs)) := by
    have hnumber : NumberText negative _ _ := .intro hwhole .absent .absent
    rw [numeral, hvalue] at hnumber
    exact .number hnumber
  rw [htext, ← heq]
  by_cases hneg : i < 0
  · have hword := hnumber true
    rw [if_pos rfl, show -(i.natAbs : Int) = i by omega] at hword
    simpa [hneg, signText] using hword
  · have hword := hnumber false
    rw [if_neg Bool.false_ne_true, show (i.natAbs : Int) = i by omega] at hword
    simpa [hneg, signText] using hword

/-! ## Collections -/

theorem isSpace_breakText (style : Style) (depth : Nat) :
    ∀ c ∈ (breakText style depth).toList, isSpace c = true := by
  intro c hc
  unfold breakText at hc
  split at hc
  · simp [String.toList_append] at hc
    rcases hc with rfl | ⟨-, rfl⟩ <;> rfl
  · simp at hc

theorem toList_separatorText (style : Style) (depth : Nat) :
    ∃ gap, (separatorText style depth).toList = ',' :: gap ∧ ∀ c ∈ gap, isSpace c = true := by
  unfold separatorText
  split
  · exact ⟨_, by rw [String.toList_append]; rfl, isSpace_breakText style depth⟩
  · exact ⟨[' '], rfl, by simp [isSpace]⟩

/-- The elements after the first one, each with the comma and the space in front of it. -/
def following (gap : List Char) (texts : List String) : List Char :=
  texts.flatMap fun text => ',' :: (gap ++ text.toList)

theorem following_cons (gap : List Char) (text : String) (texts : List String)
    (rest : List Char) :
    following gap (text :: texts) ++ rest =
      ',' :: (gap ++ (text.toList ++ (following gap texts ++ rest))) := by
  simp [following]

theorem toList_intercalate {separator : String} {gap : List Char}
    (h : separator.toList = ',' :: gap) (text : String) (texts : List String) :
    (separator.intercalate (text :: texts)).toList = text.toList ++ following gap texts := by
  induction texts generalizing text with
  | nil => simp [following]
  | cons next texts ih =>
    rw [String.intercalate_cons_cons, String.toList_append, String.toList_append, ih, h]
    simp [following]

theorem toList_bracketText_nil (style : Style) (depth : Nat) {left right : String} {l r : Char}
    (hleft : left.toList = [l]) (hright : right.toList = [r]) :
    (bracketText style depth left right []).toList = [l, r] := by
  simp [bracketText, String.toList_append, hleft, hright]

theorem toList_bracketText_cons (style : Style) (depth : Nat) {left right : String} {l r : Char}
    (hleft : left.toList = [l]) (hright : right.toList = [r]) (text : String)
    (texts : List String) : ∃ gap before after : List Char, (∀ c ∈ gap, isSpace c = true) ∧
      (∀ c ∈ before, isSpace c = true) ∧ (∀ c ∈ after, isSpace c = true) ∧
      (bracketText style depth left right (text :: texts)).toList =
        l :: (before ++ (text.toList ++ (following gap texts ++ (after ++ [r])))) := by
  obtain ⟨gap, hseparator, hgap⟩ := toList_separatorText style (depth + 1)
  refine ⟨gap, _, _, hgap, isSpace_breakText style (depth + 1), isSpace_breakText style depth, ?_⟩
  simp [bracketText, String.toList_append, toList_intercalate hseparator, hleft, hright]

open FlowStyle (Parts Bracketed)

section

variable {α : Type} {P : List Char → α → Prop} {texts : List String} {as : List α}

theorem parts_following {closing : Char} {gap after : List Char}
    (hgap : gap.all isSpace = true) (hafter : after.all isSpace = true) {text : String} {a : α}
    (h : P text.toList a) (hs : List.Forall₂ (fun text a => P text.toList a) texts as) :
    Parts isSpace closing P (text.toList ++ (following gap texts ++ (after ++ [closing])))
      (a :: as) := by
  induction hs generalizing text a with
  | nil => exact .last h hafter
  | cons hnext _ ih =>
    rw [following_cons]
    exact .more h List.all_nil hgap (ih hnext)

/-- Brackets around the texts of parts are the text of a collection. -/
theorem bracketed_bracketText (style : Style) (depth : Nat) {left right : String} {l r : Char}
    (hleft : left.toList = [l]) (hright : right.toList = [r])
    (h : List.Forall₂ (fun text a => P text.toList a) texts as) :
    Bracketed isSpace l r P (bracketText style depth left right texts).toList as := by
  cases h with
  | nil =>
    rw [toList_bracketText_nil style depth hleft hright]
    exact .nil List.all_nil
  | @cons text a texts as h hs =>
    obtain ⟨gap, before, after, hgap, hbefore, hafter, htext⟩ :=
      toList_bracketText_cons style depth hleft hright text texts
    rw [htext]
    exact .parts (List.all_eq_true.2 hbefore)
      (parts_following (List.all_eq_true.2 hgap) (List.all_eq_true.2 hafter) h hs)

/-- Parts that have a depth each have one in common. -/
theorem exists_depth {Q : Nat → String → α → Prop}
    (hQ : ∀ {j k text a}, j ≤ k → Q j text a → Q k text a)
    (h : List.Forall₂ (fun text a => ∃ depth, Q depth text a) texts as) :
    ∃ depth, List.Forall₂ (Q depth) texts as := by
  induction h with
  | nil => exact ⟨0, .nil⟩
  | cons h _ ih =>
    obtain ⟨j, hj⟩ := h
    obtain ⟨k, hk⟩ := ih
    exact ⟨max j k, .cons (hQ (Nat.le_max_left j k) hj)
      (hk.imp fun _ _ => hQ (Nat.le_max_right j k))⟩

end

/-! ## Values -/

/-- The JSON texts of a value. -/
def Denotes (text : String) (v : Value) : Prop := ∃ depth, style.Text depth text.toList v

/-- The JSON texts of the entry of a map. -/
def DenotesEntry (text : String) (e : Value × Value) : Prop :=
  ∃ depth, style.Entry (style.Text depth) text.toList e

theorem Denotes.of_scalar {text : String} {v : Value} (h : ScalarText text.toList v) :
    Denotes text v :=
  ⟨1, .scalar h⟩

theorem denotes_str (ascii : Bool) (s : String) : Denotes (stringText ascii s) (.str s) := by
  have hquoted := ScalarText.quoted (charsText_join ascii s.toList)
  rw [String.ofList_toList, ← toList_stringText] at hquoted
  exact .of_scalar hquoted

theorem denotes_null : Denotes "null" .null := .of_scalar (.word .null)

theorem denotes_int (i : Int) : Denotes (intText i) (.int i) :=
  .of_scalar (.word (wordText_intText i))

theorem denotes_bool (b : Bool) : Denotes (boolText b) (.bool b) := by
  cases b with
  | false => exact .of_scalar (.word .no)
  | true => exact .of_scalar (.word .yes)

/-- Texts of the elements between brackets are a text of the list. -/
theorem denotes_list (style : Style) (depth : Nat) {texts : List String} {items : List Value}
    (h : List.Forall₂ Denotes texts items) :
    Denotes (bracketText style depth "[" "]" texts) (.list items) := by
  obtain ⟨k, h⟩ := exists_depth (fun hle h => h.of_le hle) h
  exact ⟨k + 1, .list (bracketed_bracketText style depth rfl rfl h)⟩

theorem denotesEntry (ascii : Bool) (key : String) {text : String} {v : Value}
    (h : Denotes text v) :
    DenotesEntry (stringText ascii key ++ ": " ++ text) (.str key, v) := by
  obtain ⟨depth, h⟩ := h
  have hkey : KeyText (stringText ascii key).toList key := by
    have hkey := KeyText.intro (charsText_join ascii key.toList) List.all_nil
    rwa [String.ofList_toList, ← toList_stringText] at hkey
  have hspace : [' '].all isSpace = true := rfl
  have hentry : Json.style.Entry _ _ _ := .intro hkey hspace h
  exact ⟨depth, by simpa [String.toList_append] using hentry⟩

/-- Texts of the entries between braces are a text of the map, if putting the entries in one after
the other gives the map. -/
theorem denotes_map (style : Style) (depth : Nat) {texts : List String}
    {entries : List (Value × Value)} (h : List.Forall₂ DenotesEntry texts entries)
    (hentries : Bindings.ofPairs entries = entries) :
    Denotes (bracketText style depth "\x7b" "\x7d" texts) (.map entries) := by
  obtain ⟨k, h⟩ := exists_depth (fun hle h => h.imp fun h => h.of_le hle) h
  have hbraces : Bracketed isSpace '\x7b' '\x7d' (Json.style.Entry (Json.style.Text k))
      (bracketText style depth "\x7b" "\x7d" texts).toList entries :=
    bracketed_bracketText style depth rfl rfl h
  have hmap : Json.style.Text (k + 1) _ _ := .map hbraces
  rw [hentries] at hmap
  exact ⟨k + 1, hmap⟩

/-- A text of a value is JSON, and its value is that value. -/
theorem Denotes.read?_eq {text : String} {v : Value} (h : Denotes text v) :
    read? text = some v := by
  obtain ⟨depth, h⟩ := h
  exact read?_eq_some_iff.2 ⟨[], text.toList, [], depth, by simp, rfl, h, rfl⟩

end Json

/-! ## Documents -/

mutual

/-- Whether a value is one that JSON tells from all others: nothing, a truth value, an integer, a
text, or a list or a map of such values with a different text for every key. -/
def Value.isDocument : Value → Bool
  | .null => true
  | .bool _ => true
  | .int _ => true
  | .str _ => true
  | .list items => documentItems items
  | .map entries => documentEntries entries
  | _ => false
termination_by structural v => v

/-- Whether all elements of a list are documents. -/
def documentItems : List Value → Bool
  | [] => true
  | v :: rest => Value.isDocument v && documentItems rest
termination_by structural vs => vs

/-- Whether the entries of a map are documents under different texts. -/
def documentEntries : List (Value × Value) → Bool
  | [] => true
  | (.str key, v) :: rest =>
    !Bindings.has rest (.str key) && Value.isDocument v && documentEntries rest
  | _ :: _ => false
termination_by structural es => es

end

theorem documentEntries_key {entries : List (Value × Value)}
    (h : documentEntries entries = true) {entry : Value × Value} (hentry : entry ∈ entries) :
    ∃ key, entry.1 = .str key := by
  induction entries with
  | nil => cases hentry
  | cons first rest ih =>
    obtain ⟨k, v⟩ := first
    cases k with
    | str key =>
      simp only [documentEntries, Bool.and_eq_true] at h
      rcases List.mem_cons.1 hentry with rfl | hentry
      · exact ⟨key, rfl⟩
      · exact ih h.2 hentry
    | _ => simp [documentEntries] at h

theorem Bindings.has_eq_any (bs : Bindings) (key : Value) :
    Bindings.has bs key = bs.any fun b => Value.alike key b.1 := by
  rw [Bindings.has, Bindings.lookup?, Option.isSome_map, List.isSome_find?]

theorem Bindings.put_of_has_eq_false {bs : Bindings} {key : Value} (v : Value)
    (h : Bindings.has bs key = false) : Bindings.put bs key v = bs ++ [(key, v)] := by
  induction bs with
  | nil => rfl
  | cons b rest ih =>
    rw [has_eq_any, List.any_cons, Bool.or_eq_false_iff, ← has_eq_any] at h
    rw [Bindings.put, h.1, ih h.2]
    rfl

/-- Entries under new and different texts are put at the end, in order. -/
theorem Bindings.putAll_document {entries : List (Value × Value)}
    (h : documentEntries entries = true) {bs : Bindings}
    (hbs : ∀ entry ∈ entries, Bindings.has bs entry.1 = false) :
    Bindings.putAll bs entries = bs ++ entries := by
  induction entries generalizing bs with
  | nil => simp [Bindings.putAll]
  | cons entry rest ih =>
    obtain ⟨k, v⟩ := entry
    cases k with
    | str key =>
      simp only [documentEntries, Bool.and_eq_true, Bool.not_eq_true'] at h
      obtain ⟨⟨hkey, -⟩, hrest⟩ := h
      have hput := Bindings.put_of_has_eq_false v (hbs _ List.mem_cons_self)
      have hnew : ∀ entry ∈ rest, Bindings.has (bs ++ [(.str key, v)]) entry.1 = false := by
        intro entry hentry
        have hold := hbs entry (List.mem_cons_of_mem _ hentry)
        obtain ⟨other, hother⟩ := documentEntries_key hrest hentry
        have hne : key ≠ other := by
          rw [Bindings.has_eq_any, List.any_eq_false] at hkey
          simpa [hother] using hkey entry hentry
        rw [Bindings.has_eq_any] at hold ⊢
        rw [List.any_append, hold, hother]
        simp [hne.symm]
      have hall := ih hrest hnew
      rw [Bindings.putAll] at hall ⊢
      rw [List.foldl_cons, hput, hall, List.append_assoc]
      rfl
    | _ => simp [documentEntries] at h

theorem Bindings.ofPairs_document {entries : List (Value × Value)}
    (h : documentEntries entries = true) : Bindings.ofPairs entries = entries :=
  Bindings.putAll_document h fun _ _ => rfl

/-- What holds of the texts of documents and of entries in a style because it holds of the pieces
that they are written with. -/
structure Json.Writes (style : Json.Style) (Q : String → Value → Prop)
    (R : String → Value × Value → Prop) : Prop where
  null : Q "null" .null
  bool (b : Bool) : Q (boolText b) (.bool b)
  int (i : Int) : Q (intText i) (.int i)
  str (s : String) : Q (stringText style.ascii s) (.str s)
  list (depth : Nat) {texts : List String} {items : List Value} (h : List.Forall₂ Q texts items) :
    Q (bracketText style depth "[" "]" texts) (.list items)
  entry (key : String) {text : String} {v : Value} (h : Q text v) :
    R (stringText style.ascii key ++ ": " ++ text) (.str key, v)
  map (depth : Nat) {texts : List String} {entries : List (Value × Value)}
    (h : List.Forall₂ R texts entries) (hentries : Bindings.ofPairs entries = entries) :
    Q (bracketText style depth "\x7b" "\x7d" texts) (.map entries)

namespace Json.Writes

variable {style : Style} {Q : String → Value → Prop} {R : String → Value × Value → Prop}

mutual

theorem exists_value (W : Writes style Q R) : ∀ v : Value, v.isDocument = true → ∀ depth,
    ∃ text, writeAt style depth v = .ok text ∧ Q text v
  | .null, _, _ => ⟨_, by rw [writeAt]; rfl, W.null⟩
  | .bool b, _, _ => ⟨_, by rw [writeAt]; rfl, W.bool b⟩
  | .int i, _, _ => ⟨_, by rw [writeAt]; rfl, W.int i⟩
  | .str s, _, _ => ⟨_, by rw [writeAt]; rfl, W.str s⟩
  | .list items, h, depth => by
    rw [Value.isDocument] at h
    obtain ⟨texts, htexts, hitems⟩ := exists_items W items h (depth + 1)
    exact ⟨_, by rw [writeAt, htexts]; rfl, W.list depth hitems⟩
  | .map entries, h, depth => by
    rw [Value.isDocument] at h
    obtain ⟨texts, htexts, hentries⟩ := exists_entries W entries h (depth + 1)
    exact ⟨_, by rw [writeAt, htexts]; rfl, W.map depth hentries (Bindings.ofPairs_document h)⟩
  | .float _, h, _ | .tuple _, h, _ | .env _, h, _ | .object _, h, _ | .set _, h, _
  | .bytes _, h, _ | .date _, h, _ | .datetime _, h, _ | .undefined, h, _ | .closure .., h, _
  | .literal _, h, _ | .node _, h, _ => by
    simp [Value.isDocument] at h
termination_by structural v => v

theorem exists_items (W : Writes style Q R) : ∀ items : List Value, documentItems items = true →
    ∀ depth, ∃ texts, writeItems style depth items = .ok texts ∧ List.Forall₂ Q texts items
  | [], _, _ => ⟨[], by rw [writeItems]; rfl, .nil⟩
  | v :: rest, h, depth => by
    rw [documentItems, Bool.and_eq_true] at h
    obtain ⟨text, htext, hv⟩ := exists_value W v h.1 depth
    obtain ⟨texts, htexts, hrest⟩ := exists_items W rest h.2 depth
    exact ⟨text :: texts, by rw [writeItems, htext, htexts]; rfl, .cons hv hrest⟩
termination_by structural items => items

theorem exists_entries (W : Writes style Q R) : ∀ entries : List (Value × Value),
    documentEntries entries = true → ∀ depth,
      ∃ texts, writeEntries style depth entries = .ok texts ∧ List.Forall₂ R texts entries
  | [], _, _ => ⟨[], by rw [writeEntries]; rfl, .nil⟩
  | (.str key, v) :: rest, h, depth => by
    simp only [documentEntries, Bool.and_eq_true] at h
    obtain ⟨text, htext, hv⟩ := exists_value W v h.1.2 depth
    obtain ⟨texts, htexts, hrest⟩ := exists_entries W rest h.2 depth
    exact ⟨(stringText style.ascii key ++ ": " ++ text) :: texts,
      by rw [writeEntries, htext, htexts]; rfl, .cons (W.entry key hv) hrest⟩
termination_by structural entries => entries

end

end Json.Writes

/-- Every document is written, and as a text of it. -/
theorem Json.exists_writeAt (style : Json.Style) (v : Value) (h : v.isDocument = true)
    (depth : Nat) : ∃ text, Json.writeAt style depth v = .ok text ∧ Json.Denotes text v :=
  have writes : Json.Writes style Json.Denotes Json.DenotesEntry := {
    null := Json.denotes_null
    bool := Json.denotes_bool
    int := Json.denotes_int
    str := Json.denotes_str style.ascii
    list := Json.denotes_list style
    entry := Json.denotesEntry style.ascii
    map := Json.denotes_map style }
  writes.exists_value v h depth

end TreeScript
