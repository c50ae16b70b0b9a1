import Mathlib
import TreeScript.Effect.Files
import TreeScript.Proofs.WrittenFiles

/-!
# Pages of files

A slice of a file is given by the numbers of its first and its last line, both counted from one and
both included. What a slice holds is exactly the lines with numbers in between
(`Effect.sliceOf_eq_linesBetween`), so that slices which follow each other can be put together
again: with a line feed between them they are one slice, and the pages of a file, of whatever size,
are the text of the file.
-/

namespace TreeScript

/-! ## Lines -/

namespace Text

theorem lines_ne_nil (s : String) : lines s ≠ [] := by
  simpa [lines, split] using parts_ne_nil '\n' s.toList

/-- Putting the parts of a text together with what they were cut at gives the text. -/
theorem intercalate_parts (separator : Char) (cs : List Char) :
    [separator].intercalate (parts separator cs) = cs := by
  induction cs with
  | nil => rfl
  | cons c cs ih =>
    obtain ⟨first, others, hparts⟩ := List.exists_cons_of_ne_nil (parts_ne_nil separator cs)
    rw [parts]
    by_cases hc : c = separator
    · rw [if_pos (beq_iff_eq.2 hc), hparts, List.intercalate_cons_cons, ← hparts, ih, hc]
      rfl
    · rw [if_neg (by simpa using hc), hparts]
      rw [hparts] at ih
      cases others with
      | nil => simpa using ih
      | cons second others =>
        rw [List.intercalate_cons_cons] at ih ⊢
        rw [List.cons_append, List.cons_append]
        exact congrArg _ ih

theorem unlines_lines (s : String) : unlines (lines s) = s := by
  rw [unlines, ← String.toList_inj, String.toList_intercalate, lines, split, List.map_map]
  have hmap : (parts '\n' s.toList).map (String.toList ∘ String.ofList) = parts '\n' s.toList := by
    simp
  rw [hmap]
  exact intercalate_parts '\n' s.toList

theorem unlines_append {ls more : List String} (hls : ls ≠ []) (hmore : more ≠ []) :
    unlines (ls ++ more) = unlines ls ++ "\n" ++ unlines more :=
  String.intercalate_append_of_ne_nil hls hmore

/-- Lines with their numbers, counted from one. -/
def numbered (ls : List String) : List (Nat × String) := (List.range' 1 ls.length).zip ls

/-- The lines with numbers from one up to another one, both included. -/
def linesBetween (ls : List String) (first last : Nat) : List String :=
  ((numbered ls).filter fun e => first ≤ e.1 && e.1 ≤ last).map Prod.snd

theorem linesBetween_eq (ls : List String) (first last : Nat) :
    linesBetween ls first last = (ls.take last).drop (first - 1) := by
  -- the numbers may start anywhere
  have hfrom : ∀ start, (((List.range' start ls.length).zip ls).filter
      fun e => first ≤ e.1 && e.1 ≤ last).map Prod.snd =
        (ls.take (last + 1 - start)).drop (first - start) := by
    induction ls with
    | nil => simp
    | cons line ls ih =>
      intro start
      rw [List.length_cons, List.range'_succ, List.zip_cons_cons]
      by_cases hlast : start ≤ last
      · obtain ⟨n, hn⟩ : ∃ n, last + 1 - start = n + 1 := ⟨last - start, by omega⟩
        have hrest : last + 1 - (start + 1) = n := by omega
        rw [hn, List.take_succ_cons]
        by_cases hstart : first ≤ start
        · rw [List.filter_cons_of_pos (by simp [hstart, hlast]), List.map_cons, ih, hrest,
            Nat.sub_eq_zero_of_le hstart, Nat.sub_eq_zero_of_le (by omega)]
          rfl
        · obtain ⟨m, hm⟩ : ∃ m, first - start = m + 1 := ⟨first - start - 1, by omega⟩
          rw [List.filter_cons_of_neg (by simp [hstart]), ih, hrest, hm, List.drop_succ_cons]
          congr 1
          omega
      · have hnone : last + 1 - start = 0 := by omega
        have hrest : last + 1 - (start + 1) = 0 := by omega
        rw [List.filter_cons_of_neg (by simp [hlast]), ih, hrest, hnone]
        simp
  exact hfrom 1

/-- A line more than there are changes nothing. -/
theorem linesBetween_min (ls : List String) (first last : Nat) :
    linesBetween ls first (min last ls.length) = linesBetween ls first last := by
  rw [linesBetween_eq, linesBetween_eq, ← List.take_eq_take_min]

theorem linesBetween_append (ls : List String) {a b c : Nat} (hab : a ≤ b + 1) (hbc : b ≤ c) :
    linesBetween ls a b ++ linesBetween ls (b + 1) c = linesBetween ls a c := by
  have htake : ls.take b = (ls.take c).take b := by rw [List.take_take, Nat.min_eq_left hbc]
  have hdrop : (ls.take c).drop b = ((ls.take c).drop (a - 1)).drop (b - (a - 1)) := by
    rw [List.drop_drop, Nat.add_sub_cancel' (by omega)]
  rw [linesBetween_eq, linesBetween_eq, linesBetween_eq, htake, List.drop_take, Nat.add_sub_cancel,
    hdrop, List.take_append_drop]

theorem linesBetween_ne_nil {ls : List String} {first last : Nat} (hfirst : 1 ≤ first)
    (hlast : first ≤ last) (hlength : first ≤ ls.length) : linesBetween ls first last ≠ [] := by
  rw [linesBetween_eq]
  intro hnil
  have hle := List.drop_eq_nil_iff.1 hnil
  rw [List.length_take] at hle
  omega

/-- Slices that follow each other are one slice. -/
theorem unlines_linesBetween {ls : List String} {a b c : Nat} (ha : 1 ≤ a) (hab : a ≤ b)
    (hbc : b < c) (hb : b < ls.length) :
    unlines (linesBetween ls a b) ++ "\n" ++ unlines (linesBetween ls (b + 1) c) =
      unlines (linesBetween ls a c) := by
  rw [← unlines_append (linesBetween_ne_nil ha hab (by omega))
    (linesBetween_ne_nil (by omega) hbc hb), linesBetween_append ls (by omega) (by omega)]

/-- The first pages of some lines are one slice, as long as there is a line on each of them. -/
theorem unlines_pages {ls : List String} {size : Nat} (hsize : 1 ≤ size) {count : Nat}
    (hcount : count * size < ls.length) :
    unlines ((List.range (count + 1)).map fun k =>
      unlines (linesBetween ls (1 + k * size) ((k + 1) * size))) =
      unlines (linesBetween ls 1 ((count + 1) * size)) := by
  induction count with
  | zero => simp [unlines]
  | succ count ih =>
    have hpages : (count + 1) * size = count * size + size := Nat.add_one_mul count size
    have hnext : (count + 1 + 1) * size = (count + 1) * size + size :=
      Nat.add_one_mul (count + 1) size
    have hjoin : unlines (linesBetween ls 1 ((count + 1) * size)) ++ "\n" ++
        unlines (linesBetween ls ((count + 1) * size + 1) ((count + 1 + 1) * size)) =
        unlines (linesBetween ls 1 ((count + 1 + 1) * size)) :=
      unlines_linesBetween (by omega) (by omega) (by omega) hcount
    rw [List.range_succ, List.map_append, List.map_singleton, unlines_append (by simp) (by simp),
      ih (by omega), ← hjoin, Nat.add_comm 1]
    rfl

/-- All pages of some lines are these lines. -/
theorem unlines_all_pages {ls : List String} (hls : ls ≠ []) {size : Nat} (hsize : 1 ≤ size) :
    unlines ((List.range ((ls.length + size - 1) / size)).map fun k =>
      unlines (linesBetween ls (1 + k * size) ((k + 1) * size))) = unlines ls := by
  have hlength : 0 < ls.length := List.length_pos_of_ne_nil hls
  obtain ⟨count, hcount⟩ : ∃ count, (ls.length + size - 1) / size = count + 1 :=
    ⟨(ls.length - 1) / size, by
      rw [show ls.length + size - 1 = ls.length - 1 + size by omega,
        Nat.add_div_right _ (by omega)]⟩
  have hdiv := (Nat.div_eq_iff (by omega)).1 hcount
  have hexpand : (count + 1) * size = count * size + size := Nat.add_one_mul count size
  rw [hcount, unlines_pages hsize (by omega), linesBetween_eq,
    List.take_of_length_le (by omega)]
  rfl

end Text

/-! ## Slices -/

namespace Effect

/-- The arguments of an effect that only needs a path. -/
def pathArgs (path : Value) : Bindings := [(.str "path", path)]

/-- The arguments of a slice. -/
def sliceArgs (path : Value) (first last : Nat) : Bindings :=
  [(.str "path", path), (.str "start", .int first), (.str "end", .int last)]

/-- The answer to a slice. -/
def sliceValue (path : Value) (first last total : Nat) (content : String) : Value :=
  .ofFields [("path", path), ("start", .int first), ("end", .int last), ("total_lines", .int total),
    ("content", .str content)]

theorem sliceOf_eq_linesBetween (ls : List String) {first : Nat} (hfirst : 1 ≤ first) (last : Nat) :
    sliceOf ls ((first : Int) - 1) (some (last : Int)) = Text.linesBetween ls first last := by
  have hstart : boundIn ls.length ((first : Int) - 1) = min (first - 1) ls.length := by
    rw [boundIn, if_neg (by omega)]
    congr 1
    omega
  have hstop : boundIn ls.length (last : Int) = min last ls.length := by
    rw [boundIn, if_neg (by omega)]
    rfl
  rw [Text.linesBetween_eq, sliceOf, hstart, hstop, ← List.take_eq_take_min]
  rcases Nat.le_total (first - 1) ls.length with hle | hle
  · rw [Nat.min_eq_left hle]
  · rw [Nat.min_eq_right hle, List.drop_eq_nil_of_le, List.drop_eq_nil_of_le]
    · simp; omega
    · simp

variable {baseDir path : Value} {files : FileSystem} {text : String}

/-- A file that can be read is where its path leads to. -/
theorem readFile_eq_ok (h : readFile baseDir files (pathArgs path) = .ok (.str text)) :
    ∃ place, resolvePath baseDir files path = .ok place ∧ files.readText place = .ok text := by
  obtain ⟨place, hplace, h⟩ := Result.bind_eq_ok.1 h
  obtain ⟨content, hcontent, hvalue⟩ := Result.map_eq_ok.1 h
  cases hvalue
  exact ⟨place, hplace, hcontent⟩

theorem slice_eq (hread : readFile baseDir files (pathArgs path) = .ok (.str text))
    {first last : Nat} (hfirst : 1 ≤ first) (hlast : 1 ≤ last) :
    slice baseDir files (sliceArgs path first last) =
      .ok (sliceValue path first last (Text.lines text).length
        (Text.unlines (Text.linesBetween (Text.lines text) first last))) := by
  obtain ⟨place, hplace, htext⟩ := readFile_eq_ok hread
  have hfirst' : (Value.int first).truth = true := by simp [Value.truth]; omega
  have hlast' : (Value.int last).truth = true := by simp [Value.truth]; omega
  have hshown : last ≠ 0 := by omega
  simp [slice, sliceArgs, Bindings.getD, hplace, htext, orElse, hfirst', hlast', Value.toInt,
    sliceOf_eq_linesBetween _ hfirst, sliceValue, hshown]

/-- What the slices of a file hold: the lines with the numbers that were asked for. The pages of a
file, of any size, are its text, and slices that follow each other are one slice. -/
theorem pages_of_file (hread : readFile baseDir files (pathArgs path) = .ok (.str text)) :
    let total := (Text.lines text).length
    ∃ content : Nat → Nat → String,
      (∀ first last, 1 ≤ first → 1 ≤ last →
        slice baseDir files (sliceArgs path first last) =
          .ok (sliceValue path first last total (content first last))) ∧
      (∀ size, 1 ≤ size →
        Text.unlines ((List.range ((total + size - 1) / size)).map fun k =>
          content (1 + k * size) ((k + 1) * size)) = text) ∧
      (∀ first last, 1 ≤ first → 1 ≤ last →
        content first last =
            Text.unlines (Text.linesBetween (Text.lines text) first (min last total)) ∧
          (min last total < first → content first last = "")) ∧
      ∀ a b c, 1 ≤ a → a ≤ b → b < c → b < total →
        content a b ++ "\n" ++ content (b + 1) c = content a c := by
  intro total
  refine ⟨fun first last => Text.unlines (Text.linesBetween (Text.lines text) first last),
    fun first last hfirst hlast => slice_eq hread hfirst hlast, ?_, ?_, ?_⟩
  · intro size hsize
    rw [Text.unlines_all_pages (Text.lines_ne_nil text) hsize, Text.unlines_lines]
  · intro first last hfirst hlast
    refine ⟨by rw [Text.linesBetween_min], fun hbelow => ?_⟩
    have hnone : Text.linesBetween (Text.lines text) first last = [] := by
      rw [Text.linesBetween_eq, List.drop_eq_nil_of_le]
      rw [List.length_take]
      omega
    exact congrArg Text.unlines hnone
  · intro a b c ha hab hbc hb
    exact Text.unlines_linesBetween ha hab hbc hb

/-- A file with an empty line, which ends with a line feed. -/
def notes : FileSystem where
  tree := .folder [("notes", .file (Text.encodeUtf8 "a\n\nB\n") 0)]
  cwd := "/"
  home := "/"

theorem readFile_notes :
    readFile .null notes (pathArgs (.str "notes")) = .ok (.str "a\n\nB\n") := by
  have hplace : resolvePath .null notes (.str "notes") = .ok "/notes" := by decide +kernel
  have htext : notes.readText "/notes" = .ok "a\n\nB\n" := by decide +kernel
  simp [readFile, pathArgs, Bindings.getD, hplace, htext]

/-- Two pages of three lines, of which the second one has only the line after the last line feed. -/
theorem pages_of_file_notes :
    ∃ page last : String,
      slice .null notes (sliceArgs (.str "notes") 1 3) =
        .ok (sliceValue (.str "notes") 1 3 4 page) ∧
      slice .null notes (sliceArgs (.str "notes") 4 6) =
        .ok (sliceValue (.str "notes") 4 6 4 last) ∧
      Text.unlines [page, last] = "a\n\nB\n" := by
  obtain ⟨content, hslice, hpages, -⟩ := pages_of_file readFile_notes
  exact ⟨content 1 3, content 4 6, hslice 1 3 (by decide) (by decide),
    hslice 4 6 (by decide) (by decide), hpages 3 (by decide)⟩

end Effect

end TreeScript
