import TreeScript.Value.Bindings

/-!
# Flow styles

JSON, and YAML between brackets, write lists and maps alike: brackets around parts, commas between
the parts, and colons after keys. A `FlowStyle` is what such a format has of its own: what may stand
between the parts, the texts of values without parts, and the texts of keys. `FlowStyle.Text` then
says which texts a value has.

Texts are told by their depth: a value without parts has depth one, and so has an empty collection.
Going by depth, a fact about all texts is one about a level of nesting, `FlowStyle.Level`, and lists
and maps are treated together as `FlowStyle.Bracketed`.
-/

namespace TreeScript

/-- What a format with brackets has of its own. -/
structure FlowStyle where
  /-- Whether a character may stand between the parts of a text. -/
  isGap : Char → Bool
  /-- The texts of values without parts. -/
  Scalar : List Char → Value → Prop
  /-- The texts of keys, up to the colon. -/
  Key : List Char → String → Prop

namespace FlowStyle

section

variable {α : Type} {isGap : Char → Bool} {opening closing : Char} {P Q : List Char → α → Prop}
  {text : List Char} {as : List α}

/-- The parts of a collection up to its closing bracket. -/
inductive Parts (isGap : Char → Bool) (closing : Char) (P : List Char → α → Prop) :
    List Char → List α → Prop where
  | last {text gap : List Char} {a : α} (h : P text a) (hgap : gap.all isGap = true) :
    Parts isGap closing P (text ++ (gap ++ [closing])) [a]
  | more {text gap gap' others : List Char} {a : α} {as : List α} (h : P text a)
    (hgap : gap.all isGap = true) (hgap' : gap'.all isGap = true)
    (hothers : Parts isGap closing P others as) :
    Parts isGap closing P (text ++ (gap ++ ',' :: (gap' ++ others))) (a :: as)

/-- A collection with its brackets. -/
inductive Bracketed (isGap : Char → Bool) (opening closing : Char) (P : List Char → α → Prop) :
    List Char → List α → Prop where
  | nil {gap : List Char} (hgap : gap.all isGap = true) :
    Bracketed isGap opening closing P (opening :: (gap ++ [closing])) []
  | parts {gap inner : List Char} {as : List α} (hgap : gap.all isGap = true)
    (h : Parts isGap closing P inner as) :
    Bracketed isGap opening closing P (opening :: (gap ++ inner)) as

theorem Parts.imp (hPQ : ∀ {text a}, P text a → Q text a) (h : Parts isGap closing P text as) :
    Parts isGap closing Q text as := by
  induction h with
  | last h hgap => exact .last (hPQ h) hgap
  | more h hgap hgap' _ ih => exact .more (hPQ h) hgap hgap' ih

theorem Bracketed.imp (hPQ : ∀ {text a}, P text a → Q text a)
    (h : Bracketed isGap opening closing P text as) :
    Bracketed isGap opening closing Q text as := by
  cases h with
  | nil hgap => exact .nil hgap
  | parts hgap h => exact .parts hgap (h.imp hPQ)

end

variable {S : FlowStyle} {P Q : List Char → Value → Prop} {text : List Char} {v : Value}

/-- The entry of a map, whose value has one of some texts. -/
inductive Entry (S : FlowStyle) (P : List Char → Value → Prop) :
    List Char → Value × Value → Prop where
  | intro {keyText gap text : List Char} {key : String} {v : Value} (hkey : S.Key keyText key)
    (hgap : gap.all S.isGap = true) (h : P text v) :
    Entry S P (keyText ++ ':' :: (gap ++ text)) (.str key, v)

/-- A value whose parts have some texts. -/
inductive Level (S : FlowStyle) (P : List Char → Value → Prop) : List Char → Value → Prop where
  | scalar {text : List Char} {v : Value} (h : S.Scalar text v) : Level S P text v
  | list {text : List Char} {vs : List Value} (h : Bracketed S.isGap '[' ']' P text vs) :
    Level S P text (.list vs)
  | map {text : List Char} {es : List (Value × Value)}
    (h : Bracketed S.isGap '\x7b' '\x7d' (S.Entry P) text es) :
    Level S P text (.map (Bindings.ofPairs es))

/-- The texts of values up to a depth. -/
def Text (S : FlowStyle) : Nat → List Char → Value → Prop
  | 0 => fun _ _ => False
  | depth + 1 => S.Level (S.Text depth)

theorem Entry.imp {e : Value × Value} (hPQ : ∀ {text v}, P text v → Q text v)
    (h : S.Entry P text e) : S.Entry Q text e := by
  cases h with
  | intro hkey hgap h => exact .intro hkey hgap (hPQ h)

theorem Level.imp (hPQ : ∀ {text v}, P text v → Q text v) (h : S.Level P text v) :
    S.Level Q text v := by
  cases h with
  | scalar h => exact .scalar h
  | list h => exact .list (h.imp hPQ)
  | map h => exact .map (h.imp (Entry.imp hPQ))

theorem Text.succ {depth : Nat} (h : S.Text depth text v) : S.Text (depth + 1) text v := by
  induction depth generalizing text v with
  | zero => cases h
  | succ depth ih => exact h.imp ih

theorem Text.of_le {depth depth' : Nat} (h : S.Text depth text v) (hle : depth ≤ depth') :
    S.Text depth' text v := by
  induction hle with
  | refl => exact h
  | step _ ih => exact ih.succ

end FlowStyle

end TreeScript
