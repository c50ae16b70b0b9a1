import Mathlib
import TreeScript.Http.Request
import TreeScript.Proofs.JsonRoundTrip
import TreeScript.Proofs.WrittenFiles

/-!
# Bodies of requests

A list or a map is sent as JSON in which all characters are ASCII and none is a control, whatever
its texts hold: a character outside of ASCII is written as the escapes of its UTF-16 units. The
bytes are read as the value that was sent (`Http.encodeBody_document`).
-/

namespace TreeScript

namespace Json

/-- Whether a character is ASCII and no control. -/
def isWireChar (c : Char) : Bool := 0x20 ≤ c.toNat && c.toNat < 0x7f

/-- Whether all characters of a text are ASCII and none is a control. -/
def isWire (text : String) : Bool := text.toList.all isWireChar

@[simp]
theorem isWire_append (a b : String) : isWire (a ++ b) = (isWire a && isWire b) := by
  simp [isWire]

theorem isWire_unitEscape (unit : Nat) : isWire (unitEscape unit) = true := by
  have hdigits : ∀ d < 16, isWireChar (Nat.digitChar d) = true := by decide
  rw [unitEscape, isWire_append, Bool.and_eq_true]
  refine ⟨rfl, List.all_eq_true.2 fun c hc => ?_⟩
  obtain ⟨d, hd, rfl⟩ := Text.mem_hexPadded hc
  exact hdigits d hd

theorem isWire_charText (c : Char) : isWire (charText true c) = true := by
  unfold charText
  split_ifs with h1 h2 h3 h4 h5 h6 h7 h8
  iterate 7 rfl
  · unfold utf16Escape
    split
    · exact isWire_unitEscape _
    · simp [isWire_unitEscape]
  · rw [Char.toString_eq_singleton, isWire, String.toList_singleton]
    simp only [Bool.true_and, Bool.or_eq_true, decide_eq_true_eq, not_or] at h8
    simp [isWireChar]
    omega

/-- A character above ASCII is written as the escapes of its units. -/
theorem charText_above {c : Char} (h : 0x7f ≤ c.toNat) : charText true c = utf16Escape c.toNat := by
  have hne : ∀ d : Char, d.toNat < 0x7f → (c == d) = false := by
    intro d hd
    refine beq_eq_false_iff_ne.2 ?_
    rintro rfl
    omega
  simp [charText, hne, h]

theorem isWire_stringText (s : String) : isWire (stringText true s) = true := by
  have hjoin : isWire (String.join (s.toList.map (charText true))) = true := by
    induction s.toList with
    | nil => rfl
    | cons c cs ih => simp [String.join_cons, isWire_charText, ih]
  rw [stringText, isWire_append, isWire_append, hjoin]
  rfl

theorem isWire_intText (i : Int) : isWire (intText i) = true := by
  have hdigits : ∀ c ∈ Nat.toDigits 10 i.natAbs, isWireChar c = true := fun c hc => by
    have hdigit := isDigit_toDigits c hc
    simp only [Char.isDigit, Bool.and_eq_true, decide_eq_true_eq, ge_iff_le,
      UInt32.le_iff_toNat_le] at hdigit
    have hcode : 48 ≤ c.toNat ∧ c.toNat ≤ 57 := hdigit
    simp only [isWireChar, Bool.and_eq_true, decide_eq_true_eq]
    omega
  obtain ⟨d, ds, heq, -, htext⟩ := toList_intText i
  rw [isWire, htext, ← heq, List.all_eq_true]
  split
  · exact List.forall_mem_cons.2 ⟨rfl, hdigits⟩
  · exact hdigits

theorem isWire_bracketText (depth : Nat) {left right : String} (hleft : isWire left = true)
    (hright : isWire right = true) {α : Type} {texts : List String} {as : List α}
    (h : List.Forall₂ (fun text _ => isWire text = true) texts as) :
    isWire (bracketText .wire depth left right texts) = true := by
  have hjoin : isWire (", ".intercalate texts) = true := by
    induction h with
    | nil => rfl
    | cons htext hrest ih =>
      cases hrest with
      | nil => simpa using htext
      | cons hnext hrest =>
        rw [String.intercalate_cons_cons, isWire_append, isWire_append, htext, ih]
        rfl
  rw [bracketText]
  split
  · rw [isWire_append, hleft, hright]
    rfl
  · simp only [isWire_append, hleft, hright, Bool.and_eq_true]
    exact ⟨⟨⟨⟨trivial, rfl⟩, hjoin⟩, rfl⟩, trivial⟩

/-- The wire style writes a document in ASCII. -/
theorem writes_isWire :
    Writes .wire (fun text _ => isWire text = true) (fun text _ => isWire text = true) where
  null := rfl
  bool b := by cases b <;> rfl
  int := isWire_intText
  str := isWire_stringText
  list depth _ _ h := isWire_bracketText depth rfl rfl h
  entry key text v h := by
    rw [isWire_append, isWire_append, h, Bool.and_true, Bool.and_eq_true]
    exact ⟨isWire_stringText key, rfl⟩
  map depth _ _ h _ := isWire_bracketText depth rfl rfl h

end Json

/-- The bytes of a text in ASCII without controls are of this kind too. -/
theorem Text.encodeUtf8_wire {text : String} (h : Json.isWire text = true) :
    ∀ b ∈ Text.encodeUtf8 text, 0x20 ≤ b ∧ b < 0x7f := by
  intro b hb
  rw [Text.encodeUtf8_eq] at hb
  obtain ⟨c, hc, hb⟩ := List.mem_flatMap.1 hb
  have hwire := List.all_eq_true.1 h c hc
  simp only [Json.isWireChar, Bool.and_eq_true, decide_eq_true_eq] at hwire
  have hsmall : c.val.toNat ≤ 0x7f := Nat.le_of_lt hwire.2
  rw [String.utf8EncodeChar, if_pos hsmall, List.mem_singleton] at hb
  have hbyte : b.toNat = c.toNat := by
    rw [hb]
    exact Nat.mod_eq_of_lt (Nat.lt_trans hwire.2 (by decide))
  rw [UInt8.le_iff_toNat_le, UInt8.lt_iff_toNat_lt, hbyte]
  exact hwire

namespace Http

theorem withContentType_eq (kind : String) (headers : Bindings) :
    withContentType kind headers = if headers.has (.str contentType) then headers
      else headers ++ [(.str contentType, .str kind)] := by
  unfold withContentType
  split
  · rfl
  · rename_i hnone
    exact Bindings.put_of_has_eq_false _ (Bool.eq_false_iff.2 hnone)

/-- A list or a map is sent in ASCII without controls and read as it was. The headers tell that it
is JSON, unless they name a kind already, and are else as they were. A character above the basic
plane is sent as the escapes of two surrogates. -/
theorem encodeBody_document {v : Value} (hdocument : v.isDocument = true)
    (hcontainer : v.isContainer = true) (headers : Bindings) :
    ∃ bytes, encodeBody v headers = .ok (some bytes,
        if headers.has (.str contentType) then headers
        else headers ++ [(.str contentType, .str "application/json")]) ∧
      (∀ b ∈ bytes, 0x20 ≤ b ∧ b < 0x7f) ∧
      (Text.decodeUtf8? bytes).bind Json.read? = some v ∧
      ∀ c : Char, 0x10000 ≤ c.toNat → ∃ high low,
        Json.charText Json.Style.wire.ascii c = Json.unitEscape high ++ Json.unitEscape low ∧
          (0xd800 ≤ high ∧ high ≤ 0xdbff) ∧ (0xdc00 ≤ low ∧ low ≤ 0xdfff) ∧
          0x10000 + (high - 0xd800) * 0x400 + (low - 0xdc00) = c.toNat := by
  obtain ⟨text, htext, hdenotes⟩ := Json.exists_writeAt .wire v hdocument 0
  have hwire : Json.isWire text = true := by
    obtain ⟨text', htext', hwire⟩ := Json.writes_isWire.exists_value v hdocument 0
    rw [htext] at htext'
    cases htext'
    exact hwire
  refine ⟨Text.encodeUtf8 text, ?_, ?_, ?_, fun c hc => ?_⟩
  · have hbody : encodeBody v headers = (do
        let text ← Json.write .wire v
        pure (some (Text.encodeUtf8 text), withContentType "application/json" headers)) := by
      cases v with
      | list items => rfl
      | map entries => rfl
      | _ => cases hcontainer
    rw [hbody, Json.write, htext, withContentType_eq]
    rfl
  · exact Text.encodeUtf8_wire hwire
  · rw [Text.decodeUtf8?, Text.decodeUtf8_encodeUtf8]
    exact hdenotes.read?_eq
  · have hvalid := Json.toNat_valid c
    have hchar : Json.charText Json.Style.wire.ascii c = Json.utf16Escape c.toNat :=
      Json.charText_above (Nat.le_trans (by decide) hc)
    rw [hchar]
    exact Json.utf16Escape_pair (Nat.not_lt.2 hc) (by omega)

/-- A smile, which is above the basic plane, under a name outside of ASCII. -/
theorem encodeBody_document_smile :
    ∃ bytes, encodeBody (.map [(.str "é", .list [.str "😀", .int (-1)])]) [(.str "X", .str "1")] =
        .ok (some bytes, [(.str "X", .str "1"), (.str contentType, .str "application/json")]) ∧
      (∀ b ∈ bytes, 0x20 ≤ b ∧ b < 0x7f) ∧
      (Text.decodeUtf8? bytes).bind Json.read? =
        some (.map [(.str "é", .list [.str "😀", .int (-1)])]) ∧
      Json.charText true '😀' = "\\ud83d\\ude00" := by
  obtain ⟨bytes, hbody, hwire, hread, -⟩ := encodeBody_document
    (by decide : (Value.map [(.str "é", .list [.str "😀", .int (-1)])]).isDocument = true) rfl
    [(.str "X", .str "1")]
  exact ⟨bytes, hbody, hwire, hread, by decide +kernel⟩

end Http

end TreeScript
