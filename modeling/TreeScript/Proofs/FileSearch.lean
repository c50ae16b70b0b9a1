import Mathlib
import TreeScript.Proofs.FilePages

/-!
# Searching files

A search goes through the lines of a file until it has found as many as it may. What it finds are
the first of all lines that it selects (`Effect.selectLines_eq`), each with its number, and a slice
of the file by this number is the line. A search and the one for all other lines share the lines of
the file between them.
-/

namespace TreeScript.Effect

/-- The lines, with their numbers, for which a test does not give `invert`. -/
def selected (found : String → Bool) (invert : Bool) (ls : List String) : List (Nat × String) :=
  (Text.numbered ls).filter fun e => found e.2 != invert

/-- Searching stops early, but what it has found then is the start of what it would have found. -/
theorem selectLines_eq {test : String → Result Bool} {found : String → Bool} {ls : List String}
    (htest : ∀ line ∈ ls, test line = .ok (found line)) (invert : Bool) {limit : Nat} (number : Nat)
    {before : List (Nat × String)} (hbefore : before.length ≤ limit) :
    selectLines test invert limit number ls before =
      .ok ((before ++ ((List.range' number ls.length).zip ls).filter
        fun e => found e.2 != invert).take limit) := by
  induction ls generalizing number before with
  | nil => simp [selectLines, List.take_of_length_le hbefore]
  | cons line ls ih =>
    obtain ⟨hline, hls⟩ := List.forall_mem_cons.1 htest
    rw [selectLines]
    by_cases hfull : limit ≤ before.length
    · have hlength : before.length = limit := by omega
      rw [if_pos (by omega), ← hlength, List.take_left]
      rfl
    · rw [if_neg (by omega), hline, List.length_cons, List.range'_succ, List.zip_cons_cons]
      simp only [Result.ok_bind]
      by_cases hhit : (found line != invert) = true
      · rw [if_pos hhit, ih hls _ (by simp; omega), List.filter_cons_of_pos (by exact hhit),
          List.append_assoc]
        rfl
      · rw [if_neg hhit, ih hls _ hbefore, List.filter_cons_of_neg (by simpa using hhit)]

/-- Whatever the test, a line is selected either by it or by its opposite. -/
theorem selected_perm (found : String → Bool) (ls : List String) :
    ((selected found false ls).map Prod.fst ++ (selected found true ls).map Prod.fst).Perm
      (List.range' 1 ls.length) := by
  have hall : (Text.numbered ls).map Prod.fst = List.range' 1 ls.length := by
    rw [Text.numbered, List.map_fst_zip (by simp)]
  rw [← hall, ← List.map_append]
  refine List.Perm.map _ ?_
  have hperm := List.filter_append_perm (fun e : Nat × String => found e.2) (Text.numbered ls)
  simpa [selected] using hperm

/-- The slice at the number of a line is the line. -/
theorem linesBetween_of_mem {ls : List String} {e : Nat × String} (he : e ∈ Text.numbered ls) :
    1 ≤ e.1 ∧ Text.linesBetween ls e.1 e.1 = [e.2] := by
  obtain ⟨i, hi, rfl⟩ := List.getElem_of_mem he
  have hlt : i < ls.length := by simpa [Text.numbered] using hi
  have hentry : (Text.numbered ls)[i] = (i + 1, ls[i]) := by simp [Text.numbered, Nat.add_comm]
  rw [hentry]
  refine ⟨Nat.le_add_left 1 i, ?_⟩
  rw [Text.linesBetween_eq, Nat.add_sub_cancel, List.take_succ_eq_append_getElem hlt,
    List.drop_left' (by simp; omega)]

/-- The arguments of a search. -/
def grepArgs (path pattern : Value) (invert : Bool) (limit : Nat) : Bindings :=
  [(.str "path", path), (.str "pattern", pattern), (.str "invert", .bool invert),
    (.str "max_matches", .int limit)]

/-- The answer to a search. -/
def grepValue (path pattern : Value) (lines : List (Nat × String)) (truncated : Bool) : Value :=
  .ofFields [("path", path), ("pattern", pattern), ("match_count", .int lines.length),
    ("truncated", .bool truncated), ("matches", .list (lines.map matchValue))]

/-- The facts about a file. -/
def statValue (path : Value) (size lines : Nat) (modified : String) : Value :=
  .ofFields [("path", path), ("size", .int size), ("lines", .int lines), ("isFile", .bool true),
    ("isDirectory", .bool false), ("modified", .str modified)]

variable {baseDir path pattern : Value} {files : FileSystem} {text : String}
  {named? : String → Option Char} {test : String → Result Bool} {found : String → Bool}

theorem grep_eq (hread : readFile baseDir files (pathArgs path) = .ok (.str text))
    (hpattern : lineTest named? (orElse pattern (.str "")) = .ok test)
    (htest : ∀ line ∈ Text.lines text, test line = .ok (found line)) (invert : Bool) {limit : Nat}
    (hlimit : 1 ≤ limit) :
    grep named? baseDir files (grepArgs path pattern invert limit) =
      .ok (grepValue path (orElse pattern (.str ""))
        ((selected found invert (Text.lines text)).take limit)
        (limit ≤ ((selected found invert (Text.lines text)).take limit).length)) := by
  obtain ⟨place, hplace, htext⟩ := readFile_eq_ok hread
  have hlimit' : (Value.int limit).truth = true := by simp [Value.truth]; omega
  have hselect : selectLines test invert limit 1 (Text.lines text) [] =
      .ok ((selected found invert (Text.lines text)).take limit) :=
    selectLines_eq htest invert 1 (Nat.zero_le limit)
  have horElse : orElse (.int limit) (.int defaultMaxMatches) = .int limit := if_pos hlimit'
  simp [grep, grepArgs, Bindings.getD, hplace, htext, horElse, Value.toInt, hpattern, hselect,
    Value.truth, grepValue]

theorem stat_eq (hread : readFile baseDir files (pathArgs path) = .ok (.str text)) :
    ∃ size modified, stat baseDir files (pathArgs path) =
      .ok (statValue path size (Text.lines text).length modified) := by
  obtain ⟨place, hplace, htext⟩ := readFile_eq_ok hread
  obtain ⟨bytes, hbytes, hdecoded⟩ := Result.bind_eq_ok.1 htext
  obtain ⟨t, ht, hfile⟩ := Result.bind_eq_ok.1 hbytes
  cases t with
  | folder entries => cases hfile
  | file content modified =>
    cases hfile
    refine ⟨bytes.length, (DateTime.ofMillis modified).text "T", ?_⟩
    simp [stat, pathArgs, Bindings.getD, hplace, ht, hdecoded, statValue]

/-- A search of a file finds the first of the lines that are selected, as many as it may, with their
numbers, and says whether it found so many. If it did not, it found all of them. Each of them is the
slice of the file by its number. A search and its opposite that both found all lines share the lines
of the file between them, and their number is the one that is among the facts about the file. -/
theorem search_of_file (hread : readFile baseDir files (pathArgs path) = .ok (.str text))
    (hpattern : lineTest named? (orElse pattern (.str "")) = .ok test)
    (htest : ∀ line ∈ Text.lines text, test line = .ok (found line)) :
    let total := (Text.lines text).length
    ∃ (chosen : Bool → Nat → List (Nat × String)) (truncated : Bool → Nat → Bool),
      (∀ invert limit, 1 ≤ limit →
        grep named? baseDir files (grepArgs path pattern invert limit) =
            .ok (grepValue path (orElse pattern (.str "")) (chosen invert limit)
              (truncated invert limit)) ∧
          chosen invert limit = (selected found invert (Text.lines text)).take limit ∧
          (truncated invert limit = true ↔ (chosen invert limit).length = limit) ∧
          (truncated invert limit = false →
            chosen invert limit = selected found invert (Text.lines text)) ∧
          ∀ e ∈ chosen invert limit,
            slice baseDir files (sliceArgs path e.1 e.1) =
              .ok (sliceValue path e.1 e.1 total e.2)) ∧
      (∀ limit limit', 1 ≤ limit → 1 ≤ limit' → truncated false limit = false →
        truncated true limit' = false →
        ((chosen false limit).map Prod.fst ++ (chosen true limit').map Prod.fst).Perm
          (List.range' 1 total)) ∧
      ∃ size modified, stat baseDir files (pathArgs path) =
        .ok (statValue path size total modified) := by
  intro total
  have hcomplete : ∀ invert limit,
      decide (limit ≤ ((selected found invert (Text.lines text)).take limit).length) = false →
      (selected found invert (Text.lines text)).take limit =
        selected found invert (Text.lines text) := by
    intro invert limit hbelow
    rw [decide_eq_false_iff_not, List.length_take] at hbelow
    exact List.take_of_length_le (by omega)
  refine ⟨fun invert limit => (selected found invert (Text.lines text)).take limit,
    fun invert limit => limit ≤ ((selected found invert (Text.lines text)).take limit).length,
    ?_, ?_, stat_eq hread⟩
  · intro invert limit hlimit
    refine ⟨grep_eq hread hpattern htest invert hlimit, rfl, ?_, hcomplete invert limit, ?_⟩
    · simp only [decide_eq_true_eq, List.length_take]
      omega
    · intro e he
      obtain ⟨hpos, hline⟩ := linesBetween_of_mem (List.mem_of_mem_filter (List.mem_of_mem_take he))
      rw [slice_eq hread hpos hpos, hline]
      rfl
  · intro limit limit' _ _ hplain hinverted
    dsimp only
    rw [hcomplete false limit hplain, hcomplete true limit' hinverted]
    exact selected_perm found (Text.lines text)

/-- A search for a letter, in which case does not count, that finds all lines with it, and one for
the lines without it that leaves out the second and the last of them. -/
theorem search_of_file_notes :
    let named? : String → Option Char := fun _ => none
    ∃ test, lineTest named? (orElse (.str "b") (.str "")) = .ok test ∧
      (∀ line ∈ Text.lines "a\n\nB\n", test line = .ok (line == "B")) ∧
      grep named? .null notes (grepArgs (.str "notes") (.str "b") false 2) =
        .ok (grepValue (.str "notes") (.str "b") [(3, "B")] false) ∧
      grep named? .null notes (grepArgs (.str "notes") (.str "b") true 1) =
        .ok (grepValue (.str "notes") (.str "b") [(1, "a")] true) ∧
      slice .null notes (sliceArgs (.str "notes") 3 3) =
        .ok (sliceValue (.str "notes") 3 3 4 "B") := by
  intro named?
  have hsearch : ∀ line ∈ ["a", "", "B", ""],
      (Pattern.read (fun _ => none) ['i'] "b" >>= fun p => p.search line) = .ok (line == "B") := by
    decide +kernel
  obtain ⟨p, hp, -⟩ := Result.bind_eq_ok.1 (hsearch "a" (by simp))
  have htest : ∀ line ∈ Text.lines "a\n\nB\n", p.search line = .ok (line == "B") := by
    intro line hline
    have hresult := hsearch line hline
    rwa [hp] at hresult
  have hpattern : lineTest named? (orElse (.str "b") (.str "")) = .ok p.search := by
    show (Pattern.read (fun _ => none) ['i'] "b" >>= fun p => pure p.search) = _
    rw [hp]
    rfl
  obtain ⟨chosen, truncated, hgrep, -⟩ := search_of_file readFile_notes hpattern htest
  obtain ⟨hplain, hchosen, htruncated, -, hslice⟩ := hgrep false 2 (by decide)
  obtain ⟨hinverted, hchosen', htruncated', -⟩ := hgrep true 1 (by decide)
  have hone : chosen false 2 = [(3, "B")] := hchosen.trans (by decide)
  have hother : chosen true 1 = [(1, "a")] := hchosen'.trans (by decide)
  rw [hone] at hplain htruncated hslice
  rw [hother] at hinverted htruncated'
  have hall : truncated false 2 = false :=
    Bool.eq_false_iff.2 fun h => absurd (htruncated.1 h) (by decide)
  rw [hall] at hplain
  rw [htruncated'.2 rfl] at hinverted
  exact ⟨p.search, hpattern, htest, hplain, hinverted, hslice (3, "B") (by simp)⟩

end TreeScript.Effect
