import Mathlib.Tactic.SplitIfs
import TreeScript.Files.Tree
import TreeScript.Proofs.Basic
import TreeScript.Proofs.Runs

/-!
# Written files

A file that has been written is read as what was written to it. There are three parts to this. The
bytes of a text decode to the text. What is put at a location is found there, and folders elsewhere
stay folders, so that the names that led to the location lead to it again (`FileTree.follow_mono`).
And reading makes every line end a line feed, so a text is read as it was if it has no carriage
return.

All other files stay as they are, also when folders are made on the way (`FileSystem.SameFiles`).
-/

namespace TreeScript

/-! ## Bytes of texts -/

theorem toList_loop (bytes : ByteArray) (i : Nat) (acc : List UInt8) :
    ByteArray.toList.loop bytes i acc = acc.reverse ++ bytes.data.toList.drop i := by
  fun_induction ByteArray.toList.loop bytes i acc with
  | case1 i acc h ih =>
    have hi : i < bytes.data.toList.length := h
    rw [ih, List.drop_eq_getElem_cons hi]
    simp [ByteArray.get!, getElem!_pos, h]
  | case2 i acc h =>
    have hi : bytes.data.toList.length ≤ i := Nat.le_of_not_lt h
    rw [List.drop_eq_nil_of_le hi, List.append_nil]

theorem toList_toByteArray (bytes : List UInt8) : bytes.toByteArray.toList = bytes := by
  rw [ByteArray.toList, toList_loop]
  simp

namespace Text

theorem encodeUtf8_eq (s : String) : encodeUtf8 s = s.toList.flatMap String.utf8EncodeChar := by
  have hs : encodeUtf8 s = encodeUtf8 (String.ofList s.toList) := by rw [String.ofList_toList]
  rw [hs, encodeUtf8, String.toUTF8, String.toByteArray_ofList, List.utf8Encode, toList_toByteArray]

theorem isContinuation_iff (b : UInt8) :
    isContinuation b = true ↔ 0x80 ≤ b.toNat ∧ b.toNat ≤ 0xbf := by
  simp [isContinuation, UInt8.le_iff_toNat_le]

/-- A second byte is one that can go on with a character, as far as the first one lets it. -/
theorem isSecond_iff (b c : UInt8) :
    isSecond b c = true ↔ isContinuation c = true ∧ (b.toNat = 0xe0 → 0xa0 ≤ c.toNat) ∧
      (b.toNat = 0xed → c.toNat ≤ 0x9f) ∧ (b.toNat = 0xf0 → 0x90 ≤ c.toNat) ∧
      (b.toNat = 0xf4 → c.toNat ≤ 0x8f) := by
  simp only [isSecond, beq_iff_eq, ← UInt8.toNat_inj, UInt8.toNat_ofNat, isContinuation_iff]
  split_ifs <;> simp [UInt8.le_iff_toNat_le, isContinuation_iff] <;> omega

theorem firstUnit_one {b : UInt8} (h : b.toNat < 0x80) (rest : List UInt8) :
    firstUnit b rest = .char (Char.ofNat b.toNat) 1 := by
  have hb : b < 0x80 := UInt8.lt_iff_toNat_lt.2 h
  rw [firstUnit.eq_def, if_pos hb]

theorem firstUnit_two {b c : UInt8} (hlow : 0xc2 ≤ b.toNat) (hhigh : b.toNat < 0xe0)
    (hc : isSecond b c = true) (rest : List UInt8) :
    firstUnit b (c :: rest) = .char (Char.ofNat (b.toNat % 32 * 64 + payload c)) 2 := by
  simp only [firstUnit, UInt8.lt_iff_toNat_lt, UInt8.toNat_ofNat, Bool.or_eq_true,
    decide_eq_true_eq, hc, if_true]
  rw [if_neg (by omega), if_neg (by omega), if_pos (by omega)]

theorem firstUnit_three {b c d : UInt8} (hlow : 0xe0 ≤ b.toNat) (hhigh : b.toNat < 0xf0)
    (hc : isSecond b c = true) (hd : isContinuation d = true) (rest : List UInt8) :
    firstUnit b (c :: d :: rest) =
      .char (Char.ofNat ((b.toNat % 16 * 64 + payload c) * 64 + payload d)) 3 := by
  simp only [firstUnit, UInt8.lt_iff_toNat_lt, UInt8.toNat_ofNat, Bool.or_eq_true,
    decide_eq_true_eq, hc, hd, if_true, Bool.not_true, Bool.false_eq_true, if_false]
  rw [if_neg (by omega), if_neg (by omega), if_neg (by omega), if_pos (by omega)]

theorem firstUnit_four {b c d e : UInt8} (hlow : 0xf0 ≤ b.toNat) (hhigh : b.toNat ≤ 0xf4)
    (hc : isSecond b c = true) (hd : isContinuation d = true) (he : isContinuation e = true)
    (rest : List UInt8) :
    firstUnit b (c :: d :: e :: rest) =
      .char (Char.ofNat (((b.toNat % 8 * 64 + payload c) * 64 + payload d) * 64 + payload e))
        4 := by
  simp only [firstUnit, UInt8.lt_iff_toNat_lt, UInt8.toNat_ofNat, Bool.or_eq_true,
    decide_eq_true_eq, hc, hd, he, if_true, Bool.not_true, Bool.false_eq_true, if_false]
  rw [if_neg (by omega), if_neg (by omega), if_neg (by omega), if_neg (by omega)]

/-- The code of a character is below the end of the codes and is no surrogate. -/
theorem code_range (c : Char) :
    c.val.toNat < 0xd800 ∨ 0xdfff < c.val.toNat ∧ c.val.toNat < 0x110000 := by
  have h := c.valid
  simpa [UInt32.isValidChar, Nat.isValidChar] using h

/-- The bytes of a character decode to it, whatever follows them. -/
theorem firstUnit_utf8EncodeChar (c : Char) (rest : List UInt8) :
    ∃ b bs, String.utf8EncodeChar c = b :: bs ∧
      firstUnit b (bs ++ rest) = .char c (bs.length + 1) := by
  have hrange := code_range c
  have hc : Char.ofNat c.val.toNat = c := Char.ofNat_toNat c
  have hbyte : ∀ n < 256, (UInt8.ofNat n).toNat = n := fun n h => UInt8.toNat_ofNat_of_lt' h
  unfold String.utf8EncodeChar
  generalize c.val.toNat = v at hrange hc
  dsimp only
  split_ifs with h1 h2 h3
  all_goals
    refine ⟨_, _, rfl, ?_⟩
  · have hb := hbyte v (by omega)
    rw [firstUnit_one (by omega), hb, hc]
    rfl
  · have hb := hbyte (v / 64 % 32 + 192) (by omega)
    have hd := hbyte (v % 64 + 128) (by omega)
    rw [List.cons_append, firstUnit_two (by omega) (by omega)
      ((isSecond_iff _ _).2 ⟨(isContinuation_iff _).2 (by omega), by omega⟩), payload, hb, hd]
    have hv : (v / 64 % 32 + 192) % 32 * 64 + (v % 64 + 128) % 64 = v := by omega
    rw [hv, hc]
    rfl
  · have hb := hbyte (v / 4096 % 16 + 224) (by omega)
    have hd := hbyte (v / 64 % 64 + 128) (by omega)
    have he := hbyte (v % 64 + 128) (by omega)
    rw [List.cons_append, List.cons_append, firstUnit_three (by omega) (by omega)
      ((isSecond_iff _ _).2 ⟨(isContinuation_iff _).2 (by omega), by omega⟩)
      ((isContinuation_iff _).2 (by omega)), payload, payload, hb, hd, he]
    have hv : ((v / 4096 % 16 + 224) % 16 * 64 + (v / 64 % 64 + 128) % 64) * 64 +
        (v % 64 + 128) % 64 = v := by omega
    rw [hv, hc]
    rfl
  · have hb := hbyte (v / 262144 % 8 + 240) (by omega)
    have hd := hbyte (v / 4096 % 64 + 128) (by omega)
    have he := hbyte (v / 64 % 64 + 128) (by omega)
    have hf := hbyte (v % 64 + 128) (by omega)
    rw [List.cons_append, List.cons_append, List.cons_append, firstUnit_four (by omega) (by omega)
      ((isSecond_iff _ _).2 ⟨(isContinuation_iff _).2 (by omega), by omega⟩)
      ((isContinuation_iff _).2 (by omega)) ((isContinuation_iff _).2 (by omega)), payload, payload,
      payload, hb, hd, he, hf]
    have hv : (((v / 262144 % 8 + 240) % 8 * 64 + (v / 4096 % 64 + 128) % 64) * 64 +
        (v / 64 % 64 + 128) % 64) * 64 + (v % 64 + 128) % 64 = v := by omega
    rw [hv, hc]
    rfl

theorem decodeFrom_encoded (cs : List Char) : ∀ (fuel position : Nat),
    (cs.flatMap String.utf8EncodeChar).length ≤ fuel →
    decodeFrom fuel position (cs.flatMap String.utf8EncodeChar) = .ok cs := by
  induction cs with
  | nil =>
    intro fuel position _
    cases fuel <;> rfl
  | cons c cs ih =>
    intro fuel position hfuel
    obtain ⟨b, bs, hbytes, hunit⟩ := firstUnit_utf8EncodeChar c (cs.flatMap String.utf8EncodeChar)
    rw [List.flatMap_cons, hbytes, List.cons_append] at hfuel ⊢
    simp only [List.length_cons, List.length_append] at hfuel
    obtain ⟨fuel, rfl⟩ : ∃ n, fuel = n + 1 := ⟨fuel - 1, by omega⟩
    rw [decodeFrom, hunit]
    simp only [Nat.add_sub_cancel, List.drop_left]
    rw [ih fuel _ (by omega)]
    rfl

theorem decodeUtf8_encodeUtf8 (s : String) : decodeUtf8 (encodeUtf8 s) = .ok s := by
  rw [decodeUtf8, encodeUtf8_eq, decodeFrom_encoded _ _ _ (Nat.le_refl _)]
  exact congrArg Except.ok String.ofList_toList

theorem plainBreaks_of_notMem {cs : List Char} (h : '\r' ∉ cs) : plainBreaks cs = cs := by
  induction cs with
  | nil => rfl
  | cons c cs ih =>
    rw [List.mem_cons, not_or] at h
    have hreturn : c ≠ '\r' := fun hc => h.1 hc.symm
    rw [plainBreaks, ih h.2]
    · intro rest hc _
      exact hreturn hc
    · exact hreturn

theorem notMem_plainBreaks (cs : List Char) : '\r' ∉ plainBreaks cs := by
  fun_induction plainBreaks cs with
  | case1 => simp
  | case2 rest ih => simp [ih]
  | case3 rest _ ih => simp [ih]
  | case4 c rest _ hreturn ih =>
    rw [List.mem_cons, not_or]
    exact ⟨fun h => hreturn h.symm, ih⟩

theorem parts_ne_nil (separator : Char) (cs : List Char) : parts separator cs ≠ [] := by
  induction cs with
  | nil => simp [parts]
  | cons c cs ih =>
    rw [parts]
    split
    · simp
    · split <;> simp

end Text

/-! ## What is put at a location -/

namespace FileTree

theorem child?_cons (name : String) (t : FileTree) (rest : List (String × FileTree))
    (other : String) :
    child? ((name, t) :: rest) other = if name = other then some t else child? rest other := by
  unfold child?
  by_cases h : name = other
  · simp [h]
  · simp [h]

theorem child?_append (entries more : List (String × FileTree)) (name : String) :
    child? (entries ++ more) name = (child? entries name).or (child? more name) := by
  simp [child?, List.find?_append, Option.map_or]

theorem child?_eq_none {entries : List (String × FileTree)} {name : String}
    (h : (entries.any fun e => e.1 == name) = false) : child? entries name = none := by
  rw [child?, List.find?_eq_none.2, Option.map_none]
  simpa using h

theorem child?_replaced (entries : List (String × FileTree)) {name : String} (t : FileTree)
    (other : String) :
    child? (entries.map fun e => if e.1 == name then (name, t) else e) other =
      if name = other then (child? entries name).map fun _ => t else child? entries other := by
  induction entries with
  | nil => simp [child?]
  | cons e rest ih =>
    obtain ⟨key, u⟩ := e
    rw [List.map_cons, child?_cons key u rest name, child?_cons key u rest other]
    by_cases hkey : key = name
    · simp only [hkey, beq_self_eq_true, if_true, child?_cons, ih]
      split <;> rfl
    · have hbeq : (key == name) = false := beq_false_of_ne hkey
      simp only [hbeq, Bool.false_eq_true, hkey, if_false, child?_cons, ih]
      by_cases hother : name = other
      · simp [← hother, hkey]
      · simp [hother]

/-- An entry that was put is the one with its name, and the others are as they were. -/
theorem child?_putEntry (entries : List (String × FileTree)) (name : String) (t : FileTree)
    (other : String) :
    child? (putEntry entries name t) other =
      if name = other then some t else child? entries other := by
  unfold putEntry
  split
  · rename_i h
    have hsome : (child? entries name).isSome = true := by
      simpa [child?, List.find?_isSome] using h
    obtain ⟨u, hu⟩ := Option.isSome_iff_exists.1 hsome
    rw [child?_replaced, hu, Option.map_some]
  · rename_i h
    rw [child?_append, child?_cons]
    by_cases hother : name = other
    · subst hother
      simp [child?_eq_none (Bool.eq_false_iff.2 h)]
    · simp [hother, child?]

theorem at?_folder_cons (entries : List (String × FileTree)) (name : String) (rest : Location) :
    at? (.folder entries) (name :: rest) = (child? entries name).bind (at? · rest) := by
  rw [at?]
  cases child? entries name <;> rfl

theorem at?_append (t : FileTree) (l more : Location) :
    t.at? (l ++ more) = (t.at? l).bind (at? · more) := by
  induction l generalizing t with
  | nil => cases t <;> rfl
  | cons name l ih =>
    cases t with
    | file content modified => rfl
    | folder entries =>
      rw [List.cons_append, at?_folder_cons, at?_folder_cons, Option.bind_assoc]
      congr 1
      funext u
      exact ih u

theorem isFolderAt_iff {t : FileTree} {l : Location} :
    t.isFolderAt l = true ↔ ∃ entries, t.at? l = some (.folder entries) := by
  unfold isFolderAt
  split
  · rename_i entries h
    simp [h]
  · rename_i h
    simpa using h

/-- Around everything is a folder. -/
theorem isFolderAt_of_at?_concat {t : FileTree} {l : Location} {name : String}
    (h : (t.at? (l ++ [name])).isSome = true) : t.isFolderAt l = true := by
  rw [at?_append] at h
  cases hl : t.at? l with
  | none => simp [hl] at h
  | some u =>
    cases u with
    | file content modified => simp [hl, at?] at h
    | folder entries => exact isFolderAt_iff.2 ⟨entries, hl⟩

theorem isFolderAt_dropLast {t : FileTree} {l : Location} (h : t.isFolderAt l = true) :
    t.isFolderAt l.dropLast = true := by
  rcases List.eq_nil_or_concat l with rfl | ⟨l, name, rfl⟩
  · exact h
  · obtain ⟨entries, hat⟩ := isFolderAt_iff.1 h
    rw [List.concat_eq_append, List.dropLast_concat]
    rw [List.concat_eq_append] at hat
    exact isFolderAt_of_at?_concat (by rw [hat]; rfl)

/-- What is put into a folder is there. -/
theorem at?_put_self {t : FileTree} {l : Location} (h : t.isFolderAt l = true) (name : String)
    (u : FileTree) : (t.put (l ++ [name]) u).at? (l ++ [name]) = some u := by
  induction l generalizing t with
  | nil =>
    obtain ⟨entries, hat⟩ := isFolderAt_iff.1 h
    cases hat
    rw [List.nil_append, put]
    split <;> simp [at?_folder_cons, child?_putEntry, put, at?]
  | cons first l ih =>
    obtain ⟨entries, hat⟩ := isFolderAt_iff.1 h
    cases t with
    | file content modified => cases hat
    | folder others =>
      rw [at?_folder_cons] at hat
      obtain ⟨inner, hinner, hat⟩ := Option.bind_eq_some_iff.1 hat
      rw [List.cons_append, put, hinner, at?_folder_cons, child?_putEntry, if_pos rfl,
        Option.bind_some]
      exact ih (isFolderAt_iff.2 ⟨entries, hat⟩)

/-- A file that is put where no folder is takes nothing away, and folders stay folders. -/
theorem at?_put_file {t : FileTree} {location : Location}
    (hlocation : t.isFolderAt location = false) (content : List UInt8) (modified : Nat)
    {l : Location} {u : FileTree} (hl : t.at? l = some u) :
    ∃ u', (t.put location (.file content modified)).at? l = some u' ∧
      (u.isFolderAt [] = true → u'.isFolderAt [] = true) := by
  -- along the location, with the tree there and what is left of the other location
  induction location generalizing t l with
  | nil =>
    cases t with
    | folder entries => cases hlocation
    | file old time =>
      cases l with
      | cons name rest => cases hl
      | nil =>
        cases hl
        exact ⟨_, rfl, fun h => nomatch h⟩
  | cons name location ih =>
    cases t with
    | file old time => exact ⟨u, hl, id⟩
    | folder entries =>
      cases l with
      | nil =>
        cases hl
        refine ⟨_, rfl, fun _ => ?_⟩
        rw [put]
        split
        · rfl
        · split <;> rfl
      | cons first rest =>
        rw [at?_folder_cons] at hl
        obtain ⟨inner, hinner, hl⟩ := Option.bind_eq_some_iff.1 hl
        -- a location that starts with another name is not reached by the change
        have hother : ∀ changed, name ≠ first →
            (folder (putEntry entries name changed)).at? (first :: rest) = some u := by
          intro changed hne
          rw [at?_folder_cons, child?_putEntry, if_neg hne, hinner, Option.bind_some, hl]
        rw [put]
        cases hnamed : child? entries name with
        | none =>
          have hne : name ≠ first := by
            rintro rfl
            rw [hnamed] at hinner
            cases hinner
          refine ⟨u, ?_, id⟩
          dsimp only
          split
          · exact hother _ hne
          · rw [at?_folder_cons, hinner, Option.bind_some, hl]
        | some named =>
          by_cases hne : name = first
          · subst hne
            obtain rfl : named = inner := by rwa [hnamed, Option.some.injEq] at hinner
            have hdeep : named.isFolderAt location = false := by
              simpa only [isFolderAt, at?_folder_cons, hnamed, Option.bind_some] using hlocation
            dsimp only
            rw [at?_folder_cons, child?_putEntry, if_pos rfl, Option.bind_some]
            exact ih hdeep hl
          · exact ⟨u, hother _ hne, id⟩

/-- The content of a file and the time of its last change. -/
def file? : FileTree → Option (List UInt8 × Nat)
  | .file content modified => some (content, modified)
  | .folder _ => none

/-- The file at a location. -/
def fileAt? (t : FileTree) (l : Location) : Option (List UInt8 × Nat) := (t.at? l).bind file?

theorem fileAt?_folder_cons (entries : List (String × FileTree)) (name : String) (rest : Location) :
    (folder entries).fileAt? (name :: rest) = (child? entries name).bind (fileAt? · rest) := by
  rw [fileAt?, at?_folder_cons, Option.bind_assoc]
  rfl

/-- What is put where no folder is leaves the files at all other locations as they are. -/
theorem fileAt?_put {t : FileTree} {location : Location}
    (hlocation : t.isFolderAt location = false) {u : FileTree}
    (hu : ∀ name rest, u.fileAt? (name :: rest) = none) {l : Location}
    (hl : l = location → u.fileAt? [] = t.fileAt? l) :
    (t.put location u).fileAt? l = t.fileAt? l := by
  induction location generalizing t l with
  | nil =>
    cases t with
    | folder entries => cases hlocation
    | file content modified =>
      cases l with
      | nil => exact hl rfl
      | cons name rest => exact hu name rest
  | cons name location ih =>
    cases t with
    -- nothing is put below a file
    | file content modified => rfl
    | folder entries =>
      cases l with
      | nil =>
        rw [put]
        split
        · rfl
        · split <;> rfl
      | cons first rest =>
        have hother : ∀ changed, name ≠ first → (folder (putEntry entries name changed)).fileAt?
            (first :: rest) = (folder entries).fileAt? (first :: rest) := by
          intro changed hne
          rw [fileAt?_folder_cons, child?_putEntry, if_neg hne, fileAt?_folder_cons]
        rw [put]
        cases hnamed : child? entries name with
        | none =>
          dsimp only
          split
          -- the last name of the location, which gets a new entry
          · rename_i hempty
            obtain rfl := List.isEmpty_iff.1 hempty
            by_cases hne : name = first
            · subst hne
              rw [fileAt?_folder_cons, child?_putEntry, if_pos rfl, Option.bind_some]
              rw [fileAt?_folder_cons, hnamed, Option.bind_none] at hl ⊢
              cases rest with
              | nil => exact hl rfl
              | cons second rest => exact hu second rest
            · exact hother u hne
          -- the folder for it is missing, and nothing is put
          · rfl
        | some named =>
          by_cases hne : name = first
          · subst hne
            have hdeep : named.isFolderAt location = false := by
              simpa only [isFolderAt, at?_folder_cons, hnamed, Option.bind_some] using hlocation
            rw [fileAt?_folder_cons, child?_putEntry, if_pos rfl, Option.bind_some]
            rw [fileAt?_folder_cons, hnamed, Option.bind_some] at hl ⊢
            exact ih hdeep fun hrest => hl (congrArg _ hrest)
          · exact hother _ hne

/-! ## Following names -/

/-- Whether a name leads to an entry of a folder. -/
def isEntryName (name : String) : Prop :=
  ¬(name == "" || name == ".") = true ∧ ¬(name == "..") = true ∧ ¬name.utf8ByteSize > maxName

/-- What the first of some names can do: stay, go back, or go on to an entry, which may be missing
only if it is the last one. -/
theorem follow_cons {t : FileTree} {complete : Bool} {start location : Location} {name : String}
    {rest : List String} (h : t.follow complete start (name :: rest) = .ok location) :
    t.isFolderAt start = true ∧
      ((name == "" || name == ".") = true ∧ t.follow complete start rest = .ok location ∨
        ¬(name == "" || name == ".") = true ∧ (name == "..") = true ∧
          t.follow complete start.dropLast rest = .ok location ∨
        isEntryName name ∧ (t.at? (start ++ [name])).isSome = true ∧
          t.follow complete (start ++ [name]) rest = .ok location ∨
        isEntryName name ∧ rest = [] ∧ location = start ++ [name]) := by
  rw [follow] at h
  cases hstart : t.isFolderAt start with
  | false => simp [hstart] at h
  | true =>
    refine ⟨rfl, ?_⟩
    simp only [hstart, Bool.not_true, Bool.false_eq_true, if_false] at h
    split_ifs at h with hempty hback hlong hnext hlast
    · exact .inl ⟨hempty, h⟩
    · exact .inr (.inl ⟨hempty, hback, h⟩)
    · exact .inr (.inr (.inl ⟨⟨hempty, hback, hlong⟩, hnext, h⟩))
    · have hrest : rest = [] := by simp_all
      cases h
      exact .inr (.inr (.inr ⟨⟨hempty, hback, hlong⟩, hrest, rfl⟩))

theorem follow_entry {t : FileTree} {start : Location} (hstart : t.isFolderAt start = true)
    {name : String} (hname : isEntryName name) (hnext : (t.at? (start ++ [name])).isSome = true)
    (complete : Bool) (rest : List String) :
    t.follow complete start (name :: rest) = t.follow complete (start ++ [name]) rest := by
  obtain ⟨hempty, hback, hlong⟩ := hname
  rw [follow, if_neg (by simp [hstart]), if_neg hempty, if_neg hback, if_neg hlong]
  exact if_pos hnext

/-- The names that lead to a location of a tree lead to it in every tree that has all of its folders
and files and something at the location. -/
theorem follow_mono {t t' : FileTree}
    (hkept : ∀ l, (t.at? l).isSome = true → (t'.at? l).isSome = true)
    (hfolder : ∀ l, t.isFolderAt l = true → t'.isFolderAt l = true) {complete : Bool}
    {start location : Location} {names : List String}
    (h : t.follow complete start names = .ok location)
    (hlocation : (t'.at? location).isSome = true) :
    t'.follow true start names = .ok location := by
  induction names generalizing start with
  | nil => exact h
  | cons name rest ih =>
    obtain ⟨hstart, hcases⟩ := follow_cons h
    have hstart' := hfolder start hstart
    rcases hcases with ⟨hempty, h⟩ | ⟨hempty, hback, h⟩ | ⟨hname, hnext, h⟩ | ⟨hname, rfl, rfl⟩
    · rw [follow, if_neg (by simp [hstart']), if_pos hempty]
      exact ih h
    · rw [follow, if_neg (by simp [hstart']), if_neg hempty, if_pos hback]
      exact ih h
    · rw [follow_entry hstart' hname (hkept _ hnext)]
      exact ih h
    · rw [follow_entry hstart' hname hlocation]
      rfl

/-- Names start from a folder. -/
theorem isFolderAt_start {t : FileTree} {complete : Bool} {start location : Location}
    {names : List String} (h : t.follow complete start names = .ok location) (hnames : names ≠ []) :
    t.isFolderAt start = true := by
  obtain ⟨name, rest, rfl⟩ := List.exists_cons_of_ne_nil hnames
  exact (follow_cons h).1

/-- Names lead to a folder or to a place in one. -/
theorem isFolderAt_of_follow {t : FileTree} {complete : Bool} {start location : Location}
    {names : List String} (h : t.follow complete start names = .ok location) (hnames : names ≠ [])
    (hlocation : t.isFolderAt location = false) :
    ∃ folder name, location = folder ++ [name] ∧ t.isFolderAt folder = true := by
  induction names generalizing start with
  | nil => exact absurd rfl hnames
  | cons name rest ih =>
    obtain ⟨hstart, hcases⟩ := follow_cons h
    by_cases hrest : rest = []
    · subst hrest
      rcases hcases with ⟨-, h⟩ | ⟨-, -, h⟩ | ⟨-, -, h⟩ | ⟨-, -, rfl⟩
      · cases h
        exact absurd hstart (by simp [hlocation])
      · cases h
        exact absurd (isFolderAt_dropLast hstart) (by simp [hlocation])
      · cases h
        exact ⟨start, name, rfl, hstart⟩
      · exact ⟨start, name, rfl, hstart⟩
    · rcases hcases with ⟨-, h⟩ | ⟨-, -, h⟩ | ⟨-, -, h⟩ | ⟨-, rfl, -⟩
      · exact ih h hrest
      · exact ih h hrest
      · exact ih h hrest
      · exact absurd rfl hrest

end FileTree

/-! ## Writing and reading -/

theorem Path.names_ne_nil (path : String) : Path.names path ≠ [] := by
  simpa [Path.names, Text.split] using Text.parts_ne_nil '/' path.toList

namespace FileSystem

/-- The file system with a file at a location. -/
def withFile (fs : FileSystem) (location : Location) (content : List UInt8) : FileSystem :=
  { fs with tree := fs.tree.put location (.file content unrecorded) }

/-- A path for which a file was written leads to it. -/
theorem locate_withFile {fs : FileSystem} {path : String} {location : Location}
    (h : fs.locate false path = .ok location) (hlocation : fs.tree.isFolderAt location = false)
    (content : List UInt8) :
    (fs.withFile location content).locate true path = .ok location ∧
      (fs.withFile location content).tree.at? location = some (.file content unrecorded) := by
  have hkept : ∀ l, (fs.tree.at? l).isSome = true →
      ((fs.withFile location content).tree.at? l).isSome = true := by
    intro l hl
    obtain ⟨u, hu⟩ := Option.isSome_iff_exists.1 hl
    obtain ⟨u', hu', -⟩ := FileTree.at?_put_file hlocation content unrecorded hu
    exact Option.isSome_iff_exists.2 ⟨u', hu'⟩
  have hfolder : ∀ l, fs.tree.isFolderAt l = true →
      (fs.withFile location content).tree.isFolderAt l = true := by
    intro l hl
    obtain ⟨entries, hentries⟩ := FileTree.isFolderAt_iff.1 hl
    obtain ⟨u', hu', hfolder⟩ := FileTree.at?_put_file hlocation content unrecorded hentries
    obtain ⟨entries', hentries'⟩ := FileTree.isFolderAt_iff.1 (hfolder rfl)
    cases hentries'
    exact FileTree.isFolderAt_iff.2 ⟨entries', hu'⟩
  have hput : ∀ {complete start}, fs.tree.follow complete start (Path.names path) = .ok location →
      (fs.withFile location content).tree.at? location = some (.file content unrecorded) := by
    intro complete start hfollow
    obtain ⟨around, name, rfl, haround⟩ :=
      FileTree.isFolderAt_of_follow hfollow (Path.names_ne_nil path) hlocation
    exact FileTree.at?_put_self haround name _
  unfold locate at h ⊢
  split_ifs at h ⊢ with hempty hlong habsolute
  · have hat := hput h
    exact ⟨FileTree.follow_mono hkept hfolder h (by rw [hat]; rfl), hat⟩
  · obtain ⟨start, hstart, h⟩ := Result.bind_eq_ok.1 h
    have hat := hput h
    have hpresent : ((fs.withFile location content).tree.at? start).isSome = true := by
      obtain ⟨entries, hentries⟩ := FileTree.isFolderAt_iff.1
        (FileTree.isFolderAt_start h (Path.names_ne_nil path))
      exact hkept start (by rw [hentries]; rfl)
    refine ⟨Result.bind_eq_ok.2 ⟨start, ?_, ?_⟩, hat⟩
    · exact FileTree.follow_mono hkept hfolder hstart hpresent
    · exact FileTree.follow_mono hkept hfolder h (by rw [hat]; rfl)

theorem Change.run_ofResult {α : Type} (x : Result α) (fs : FileSystem) :
    (Change.ofResult x).run.run fs = (x, fs) := by
  cases x <;> rfl

/-- A file is written where its path leads to, which is no folder. -/
theorem writeBytes_eq_ok {path : String} {content : List UInt8} {fs fs' : FileSystem}
    (h : (writeBytes path content).run.run fs = (.ok (), fs')) :
    checkPath path = .ok () ∧ ∃ location, fs.locate false path = .ok location ∧
      fs.tree.isFolderAt location = false ∧ fs' = fs.withFile location content := by
  obtain ⟨u, after, hcheck, h⟩ := run_run_bind_eq_ok h
  rw [Change.run_ofResult] at hcheck
  obtain ⟨hpath, rfl⟩ := Prod.mk.inj hcheck
  obtain ⟨current, after, hget, h⟩ := run_run_bind_eq_ok h
  cases hget
  cases hlocate : fs.locate false path with
  | error fault =>
    rw [hlocate] at h
    dsimp only at h
    rw [Change.run_ofResult] at h
    cases h
  | ok location =>
    rw [hlocate] at h
    dsimp only at h
    cases hfolder : fs.tree.isFolderAt location with
    | true =>
      rw [hfolder, if_pos rfl, Change.run_ofResult] at h
      cases h
    | false =>
      rw [hfolder] at h
      cases h
      exact ⟨hpath, location, rfl, hfolder, rfl⟩

/-- A path to which a file was written leads to a file with this content. -/
theorem find?_writeBytes {path : String} {content : List UInt8} {fs fs' : FileSystem}
    (h : (writeBytes path content).run.run fs = (.ok (), fs')) :
    fs'.find? path = some (.file content unrecorded) := by
  obtain ⟨hcheck, location, hlocate, hfolder, rfl⟩ := writeBytes_eq_ok h
  obtain ⟨hlocated, hat⟩ := locate_withFile hlocate hfolder content
  have hnull : path.toList.contains '\x00' = false := by
    rw [checkPath] at hcheck
    split at hcheck
    · cases hcheck
    · rename_i hnull
      exact Bool.eq_false_iff.2 hnull
  rw [find?, hnull, hlocated]
  exact hat

theorem resolve_of_find? {fs : FileSystem} {path : String} {t : FileTree}
    (h : fs.find? path = some t) : fs.resolve path = .ok t := by
  unfold find? at h
  split at h
  · cases h
  · rename_i hnull
    have hcheck : checkPath path = .ok () := if_neg hnull
    cases hlocate : fs.locate true path with
    | error fault =>
      rw [hlocate] at h
      cases h
    | ok location =>
      rw [hlocate] at h
      dsimp only at h
      simp [resolve, hcheck, hlocate, h]

/-- A text is read with plain line ends from the file to which it was written. -/
theorem readText_written {path text : String} {fs fs' : FileSystem}
    (h : (writeText path text).run.run fs = (.ok (), fs')) :
    fs'.readText path = .ok (String.ofList (Text.plainBreaks text.toList)) := by
  rw [readText, readBytes, resolve_of_find? (find?_writeBytes h)]
  show decodeText (Text.encodeUtf8 text) = _
  rw [decodeText, Text.decodeUtf8_encodeUtf8]
  rfl

/-- A text without a carriage return is read from the file to which it was written. -/
theorem readText_writeText {path text : String} {fs fs' : FileSystem}
    (h : (writeText path text).run.run fs = (.ok (), fs')) (htext : '\r' ∉ text.toList) :
    fs'.readText path = .ok text := by
  rw [readText_written h, Text.plainBreaks_of_notMem htext, String.ofList_toList]

/-! ## What changes keep -/

/-- Two file systems that have the same files, and in which paths start from the same places. They
may have different folders. -/
structure SameFiles (fs fs' : FileSystem) : Prop where
  files : ∀ l, fs'.tree.fileAt? l = fs.tree.fileAt? l
  cwd : fs'.cwd = fs.cwd
  home : fs'.home = fs.home

theorem SameFiles.refl (fs : FileSystem) : SameFiles fs fs := ⟨fun _ => rfl, rfl, rfl⟩

theorem SameFiles.trans {fs after last : FileSystem} (h : SameFiles fs after)
    (h' : SameFiles after last) : SameFiles fs last :=
  ⟨fun l => (h'.files l).trans (h.files l), h'.cwd.trans h.cwd, h'.home.trans h.home⟩

/-- A change that leaves all files as they are, whether it succeeds or not. -/
def Change.KeepsFiles {α : Type} (x : Change α) : Prop :=
  ∀ fs, SameFiles fs (x.run.run fs).2

namespace Change.KeepsFiles

variable {α β : Type}

theorem pure (a : α) : KeepsFiles (Pure.pure a : Change α) := .refl

theorem throw (failure : Failure) : KeepsFiles (MonadExcept.throw failure : Change α) := .refl

theorem ofResult (x : Result α) : KeepsFiles (Change.ofResult x) := by
  intro fs
  rw [run_ofResult]
  exact .refl fs

theorem get : KeepsFiles (MonadState.get : Change FileSystem) := .refl

theorem bind {x : Change α} {f : α → Change β} (hx : KeepsFiles x) (hf : ∀ a, KeepsFiles (f a)) :
    KeepsFiles (x >>= f) := by
  intro fs
  have hfirst := hx fs
  rw [run_run_bind]
  rcases hrun : x.run.run fs with ⟨failure | a, after⟩ <;> rw [hrun] at hfirst
  · exact hfirst
  · exact hfirst.trans (hf a after)

theorem tryCatch {x : Change α} {f : Failure → Change α} (hx : KeepsFiles x)
    (hf : ∀ failure, KeepsFiles (f failure)) :
    KeepsFiles (MonadExcept.tryCatch x f) := by
  intro fs
  have hfirst := hx fs
  rw [run_run_tryCatch]
  rcases hrun : x.run.run fs with ⟨failure | a, after⟩ <;> rw [hrun] at hfirst
  · exact hfirst.trans (hf failure after)
  · exact hfirst

theorem get_bind {f : FileSystem → Change β} (hf : ∀ fs, SameFiles fs ((f fs).run.run fs).2) :
    KeepsFiles (MonadState.get >>= f) := fun fs => hf fs

theorem makeFolder (path : String) : KeepsFiles (FileSystem.makeFolder path) := by
  refine (ofResult _).bind fun _ => get_bind fun fs => ?_
  split
  · rename_i location _
    split
    · exact ofResult _ fs
    · -- the new folder is put where nothing is
      rename_i hsome
      have hnone : fs.tree.at? location = none := by simpa using hsome
      have hfile : ∀ l, l = location → fs.tree.fileAt? l = none := by
        rintro l rfl
        rw [FileTree.fileAt?, hnone, Option.bind_none]
      exact ⟨fun l => FileTree.fileAt?_put (by rw [FileTree.isFolderAt, hnone]) (fun _ _ => rfl)
        fun hl => (hfile l hl).symm, rfl, rfl⟩
  · exact ofResult _ fs

theorem ensureFolder (path : String) : KeepsFiles (FileSystem.ensureFolder path) := by
  refine (makeFolder path).tryCatch fun failure => ?_
  split
  · refine get.bind fun fs => ?_
    split
    · exact pure _
    · exact throw _
  · exact throw _

theorem ensureFolders (fuel : Nat) (path : String) :
    KeepsFiles (FileSystem.ensureFolders fuel path) := by
  induction fuel generalizing path with
  | zero => exact pure ()
  | succ fuel ih =>
    rw [FileSystem.ensureFolders]
    split
    refine get.bind fun fs => ?_
    split
    · refine ((ih _).tryCatch fun failure => ?_).bind fun _ => ?_
      · split
        · exact pure ()
        · exact throw _
      · split
        · exact pure ()
        · exact ensureFolder path
    · exact ensureFolder path

end Change.KeepsFiles

end FileSystem

end TreeScript
