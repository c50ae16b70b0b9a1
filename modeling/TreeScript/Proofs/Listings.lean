import Mathlib
import TreeScript.Effect.Files
import TreeScript.Proofs.WrittenFiles

/-!
# Listings

A listing walks through a tree depth first and stops when it has found enough files. What it lists
are the first of all files that a walk without a limit meets (`FileTree.walk_eq`). Such a walk meets
every file with a selected name that is in no hidden folder (`FileTree.mem_depthFirst`), in the
order of locations: names are compared one after the other, and each of them by code points
(`FileTree.pairwise_depthFirst`).

A tree is proper if the names in a folder differ and have no slash in them. Only then a location
leads to one file and a text stands for one location.
-/

namespace TreeScript

namespace FileTree

/-! ## Proper trees -/

mutual

/-- Whether the names in every folder differ and have no slash in them. -/
def isProper : FileTree → Bool
  | .file .. => true
  | .folder entries => (entries.map Prod.fst).Nodup && properEntries entries
termination_by structural t => t

/-- Whether entries are proper trees under names without slashes. -/
def properEntries : List (String × FileTree) → Bool
  | [] => true
  | (name, t) :: rest => !name.toList.contains '/' && isProper t && properEntries rest
termination_by structural es => es

end

/-- Induction over a tree: a folder has what all its entries have. -/
theorem induction {P : FileTree → Prop} (file : ∀ content modified, P (.file content modified))
    (folder : ∀ entries, (∀ e ∈ entries, P e.2) → P (.folder entries)) (t : FileTree) : P t :=
  @FileTree.rec P (fun entries => ∀ e ∈ entries, P e.2) (fun e => P e.2) file folder
    (List.forall_mem_nil _) (fun _ _ he hrest => List.forall_mem_cons.2 ⟨he, hrest⟩)
    (fun _ _ ht => ht) t

theorem isProper_folder {entries : List (String × FileTree)} :
    (folder entries).isProper = true ↔ (entries.map Prod.fst).Nodup ∧
      ∀ e ∈ entries, '/' ∉ e.1.toList ∧ e.2.isProper = true := by
  have hentries : properEntries entries = true ↔
      ∀ e ∈ entries, '/' ∉ e.1.toList ∧ e.2.isProper = true := by
    induction entries with
    | nil => simp [properEntries]
    | cons e rest ih => simp [properEntries, ih, and_assoc]
  rw [isProper, Bool.and_eq_true, decide_eq_true_eq, hentries]

/-- Under names that differ, every entry is the one with its name. -/
theorem child?_eq_some_iff {entries : List (String × FileTree)} (h : (entries.map Prod.fst).Nodup)
    {name : String} {t : FileTree} : child? entries name = some t ↔ (name, t) ∈ entries := by
  induction entries with
  | nil => simp [child?]
  | cons e rest ih =>
    obtain ⟨key, u⟩ := e
    rw [List.map_cons, List.nodup_cons] at h
    rw [child?_cons, List.mem_cons, Prod.mk.injEq]
    by_cases hkey : key = name
    · have hnew : (name, t) ∉ rest := fun hmem => h.1 (List.mem_map.2 ⟨_, hmem, hkey.symm⟩)
      simp [hkey, hnew, eq_comm]
    · simp [hkey, ih h.2, Ne.symm hkey]

/-- On the way to anything in a proper tree no name has a slash in it. -/
theorem notMem_of_at? {t u : FileTree} (ht : t.isProper = true) {l : Location}
    (h : t.at? l = some u) : ∀ name ∈ l, '/' ∉ name.toList := by
  induction l generalizing t with
  | nil => exact List.forall_mem_nil _
  | cons name rest ih =>
    cases t with
    | file content modified => cases h
    | folder entries =>
      obtain ⟨hnames, hentries⟩ := isProper_folder.1 ht
      rw [at?_folder_cons] at h
      obtain ⟨inner, hinner, hrest⟩ := Option.bind_eq_some_iff.1 h
      obtain ⟨hname, hproper⟩ := hentries _ ((child?_eq_some_iff hnames).1 hinner)
      exact List.forall_mem_cons.2 ⟨hname, ih hproper hrest⟩

/-! ## The walk without a limit -/

mutual

/-- The locations of the selected files of an entry. A folder whose name starts with a dot is passed
over. -/
def reachedFrom (select : String → Bool) (name : String) : FileTree → List Location
  | .file .. => if select name then [[name]] else []
  | .folder inner => if name.startsWith "." then [] else (reached select inner).map (name :: ·)
termination_by structural t => t

/-- The locations of the selected files of entries, one entry after the other. -/
def reached (select : String → Bool) : List (String × FileTree) → List Location
  | [] => []
  | (name, t) :: rest => reachedFrom select name t ++ reached select rest
termination_by structural es => es

end

/-- The locations of the selected files, depth first and by the order of names in each folder. -/
def depthFirst (select : String → Bool) (t : FileTree) : List Location :=
  match t.sorted with
  | .file .. => []
  | .folder entries => reached select entries

/-- Whether the last name of a location is selected and none of the others is hidden. -/
def isShown (select : String → Bool) : Location → Bool
  | [] => false
  | [name] => select name
  | name :: rest => !name.startsWith "." && isShown select rest

/-- The entries of a folder in the order of their names, with the trees below in order too. -/
def visited (entries : List (String × FileTree)) : List (String × FileTree) :=
  (entries.map fun e => (e.1, e.2.sorted)).mergeSort fun a b => a.1 ≤ b.1

variable {select : String → Bool} {entries : List (String × FileTree)}

theorem sorted_folder (entries : List (String × FileTree)) :
    (folder entries).sorted = .folder (visited entries) := by
  have hentries : sortedEntries entries = entries.map fun e => (e.1, e.2.sorted) := by
    induction entries with
    | nil => rfl
    | cons e rest ih => rw [sortedEntries, ih, List.map_cons]
  rw [sorted, hentries, visited]

theorem mem_visited {e : String × FileTree} :
    e ∈ visited entries ↔ ∃ t, (e.1, t) ∈ entries ∧ t.sorted = e.2 := by
  rw [visited, List.mem_mergeSort, List.mem_map]
  constructor
  · rintro ⟨⟨name, t⟩, hmem, rfl⟩
    exact ⟨t, hmem, rfl⟩
  · rintro ⟨t, hmem, ht⟩
    exact ⟨(e.1, t), hmem, Prod.ext rfl ht⟩

theorem pairwise_visited (h : (entries.map Prod.fst).Nodup) :
    (visited entries).Pairwise fun a b => a.1 < b.1 := by
  have hle : (visited entries).Pairwise fun a b => decide (a.1 ≤ b.1) = true :=
    List.pairwise_mergeSort (fun a b c hab hbc => by simp_all; exact hab.trans hbc)
      (fun a b => by simpa using le_total a.1 b.1) _
  have hne : (visited entries).Pairwise fun a b => a.1 ≠ b.1 := by
    have hperm := (List.mergeSort_perm (entries.map fun e => (e.1, e.2.sorted))
      fun a b => a.1 ≤ b.1).map Prod.fst
    rw [List.map_map] at hperm
    exact List.pairwise_map.1 (hperm.nodup_iff.2 h)
  exact (hle.and hne).imp fun hab => lt_of_le_of_ne (of_decide_eq_true hab.1) hab.2

theorem reached_eq_flatMap (entries : List (String × FileTree)) :
    reached select entries = entries.flatMap fun e => reachedFrom select e.1 e.2 := by
  induction entries with
  | nil => rfl
  | cons e rest ih => rw [reached, ih, List.flatMap_cons]

theorem depthFirst_folder (entries : List (String × FileTree)) :
    (folder entries).depthFirst select =
      (visited entries).flatMap fun e => reachedFrom select e.1 e.2 := by
  rw [depthFirst, sorted_folder]
  exact reached_eq_flatMap _

theorem reachedFrom_sorted_folder (name : String) (inner : List (String × FileTree)) :
    reachedFrom select name (folder inner).sorted =
      if name.startsWith "." then [] else ((folder inner).depthFirst select).map (name :: ·) := by
  rw [depthFirst, sorted_folder, reachedFrom]

theorem exists_cons_of_mem_reachedFrom {name : String} {t : FileTree} {l : Location}
    (h : l ∈ reachedFrom select name t) : ∃ rest, l = name :: rest := by
  cases t with
  | file content modified =>
    rw [reachedFrom] at h
    split at h
    · exact ⟨[], List.mem_singleton.1 h⟩
    · cases h
  | folder inner =>
    rw [reachedFrom] at h
    split at h
    · cases h
    · obtain ⟨rest, -, rfl⟩ := List.mem_map.1 h
      exact ⟨rest, rfl⟩

/-- A walk meets the files of a proper tree in the order of their locations. -/
theorem pairwise_depthFirst {t : FileTree} (h : t.isProper = true) :
    (t.depthFirst select).Pairwise (· < ·) := by
  induction t using FileTree.induction with
  | file content modified => exact .nil
  | folder entries ih =>
    obtain ⟨hnames, hentries⟩ := isProper_folder.1 h
    rw [depthFirst_folder, List.pairwise_flatMap]
    constructor
    · intro e he
      obtain ⟨t, hmem, ht⟩ := mem_visited.1 he
      rw [← ht]
      cases t with
      | file content modified =>
        rw [sorted, reachedFrom]
        split <;> simp
      | folder inner =>
        have hinner := ih _ hmem (hentries _ hmem).2
        rw [reachedFrom_sorted_folder]
        split
        · exact .nil
        · exact hinner.map _ fun _ _ hlt => List.Lex.cons hlt
    · refine (pairwise_visited hnames).imp fun hlt l hl m hm => ?_
      obtain ⟨rest, rfl⟩ := exists_cons_of_mem_reachedFrom hl
      obtain ⟨rest', rfl⟩ := exists_cons_of_mem_reachedFrom hm
      exact List.Lex.rel hlt

theorem isSome_fileAt?_cons (h : (entries.map Prod.fst).Nodup) {name : String} {rest : Location} :
    ((folder entries).fileAt? (name :: rest)).isSome = true ↔
      ∃ t, (name, t) ∈ entries ∧ (t.fileAt? rest).isSome = true := by
  simp only [fileAt?_folder_cons, Option.isSome_iff_exists, Option.bind_eq_some_iff,
    child?_eq_some_iff h, ← exists_and_left]
  exact exists_comm

/-- The files of an entry that are met, if those below a folder are the ones that are to be met. -/
theorem mem_reachedFrom_sorted {name : String} {t : FileTree} {l : Location}
    (ht : ∀ rest, rest ∈ t.depthFirst select ↔
      (t.fileAt? rest).isSome = true ∧ isShown select rest = true) :
    l ∈ reachedFrom select name t.sorted ↔ ∃ rest, l = name :: rest ∧
      (t.fileAt? rest).isSome = true ∧ isShown select l = true := by
  cases t with
  | file content modified =>
    have hbelow : ∀ rest, ((file content modified).fileAt? rest).isSome = true ↔ rest = [] := by
      intro rest
      cases rest <;> simp [fileAt?, at?, file?]
    simp only [sorted, reachedFrom, hbelow]
    by_cases hselect : select name = true
    · simp +contextual [hselect, isShown]
    · simp +contextual [hselect, isShown]
  | folder inner =>
    have hshown : ∀ rest, ((folder inner).fileAt? rest).isSome = true →
        isShown select (name :: rest) = (!name.startsWith "." && isShown select rest) := by
      intro rest hrest
      cases rest with
      | nil => cases hrest
      | cons next rest => rfl
    rw [reachedFrom_sorted_folder]
    by_cases hhidden : name.startsWith "." = true
    · simp +contextual [hhidden, hshown]
    · rw [if_neg hhidden, List.mem_map]
      constructor
      · rintro ⟨rest, hrest, rfl⟩
        obtain ⟨hfile, hrest⟩ := (ht rest).1 hrest
        exact ⟨rest, rfl, hfile, by simp [hshown rest hfile, hhidden, hrest]⟩
      · rintro ⟨rest, rfl, hfile, hl⟩
        rw [hshown rest hfile, Bool.and_eq_true] at hl
        exact ⟨rest, (ht rest).2 ⟨hfile, hl.2⟩, rfl⟩

/-- A walk of a proper tree meets all files that are shown, and nothing else. -/
theorem mem_depthFirst {t : FileTree} (h : t.isProper = true) {l : Location} :
    l ∈ t.depthFirst select ↔ (t.fileAt? l).isSome = true ∧ isShown select l = true := by
  induction t using FileTree.induction generalizing l with
  | file content modified =>
    cases l with
    | nil => simp [depthFirst, sorted, isShown]
    | cons name rest => simp [depthFirst, sorted, fileAt?, at?]
  | folder entries ih =>
    obtain ⟨hnames, hentries⟩ := isProper_folder.1 h
    rw [depthFirst_folder, List.mem_flatMap]
    constructor
    · rintro ⟨⟨name, u⟩, he, hl⟩
      obtain ⟨t, hmem, rfl⟩ := mem_visited.1 he
      obtain ⟨rest, rfl, hfile, hshown⟩ :=
        (mem_reachedFrom_sorted fun rest => ih _ hmem (hentries _ hmem).2).1 hl
      exact ⟨(isSome_fileAt?_cons hnames).2 ⟨t, hmem, hfile⟩, hshown⟩
    · rintro ⟨hfile, hshown⟩
      cases l with
      | nil => cases hfile
      | cons name rest =>
        obtain ⟨t, hmem, hfile⟩ := (isSome_fileAt?_cons hnames).1 hfile
        exact ⟨(name, t.sorted), mem_visited.2 ⟨t, hmem, rfl⟩, (mem_reachedFrom_sorted fun rest =>
          ih _ hmem (hentries _ hmem).2).2 ⟨rest, rfl, hfile, hshown⟩⟩

/-! ## The walk with a limit -/

/-- The text of a location below a folder; `shown` is the text that stands for the folder. -/
def shownAt (shown : String) (l : Location) : String := "/".intercalate (shown :: l)

/-- Different locations without slashes in their names have different texts. -/
theorem shownAt_inj {shown : String} {l m : Location} (hl : l ≠ []) (hm : m ≠ [])
    (hlnames : ∀ name ∈ l, '/' ∉ name.toList) (hmnames : ∀ name ∈ m, '/' ∉ name.toList)
    (h : shownAt shown l = shownAt shown m) : l = m := by
  have hsplit : ∀ {k : Location}, k ≠ [] → (∀ name ∈ k, '/' ∉ name.toList) →
      List.splitOn '/' ("/".intercalate k).toList = k.map String.toList := by
    intro k hk hnames
    rw [String.toList_intercalate]
    exact List.splitOn_intercalate '/' (by simpa using hnames) (by simpa using hk)
  obtain ⟨first, l', rfl⟩ := List.exists_cons_of_ne_nil hl
  obtain ⟨first', m', rfl⟩ := List.exists_cons_of_ne_nil hm
  rw [shownAt, shownAt, String.intercalate_cons_cons, String.intercalate_cons_cons,
    String.append_right_inj] at h
  have hparts := hsplit hl hlnames
  rw [h, hsplit hm hmnames] at hparts
  exact (List.map_injective_iff.2 (fun _ _ => String.toList_inj.1) hparts).symm

theorem take_append_take {α : Type} (limit : Nat) (a b : List α) :
    (a.take limit ++ b).take limit = (a ++ b).take limit := by
  rw [List.take_append, List.take_append, List.take_take, Nat.min_self, List.length_take]
  congr 2
  omega

mutual

/-- A walk stops when it has enough, and what it has found then is the start of what a walk without
a limit finds. -/
theorem walkEntry_eq (select : String → Bool) {limit : Nat} (shown name : String) :
    ∀ (t : FileTree) (found : List String), found.length < limit →
      walkEntry select limit shown name t found =
        (found ++ (reachedFrom select name t).map (shownAt shown)).take limit
  | .file content modified, found, h => by
    rw [walkEntry, reachedFrom]
    split
    · rw [List.take_of_length_le (by simp; omega)]
      rfl
    · rw [List.map_nil, List.append_nil, List.take_of_length_le (by omega)]
  | .folder inner, found, h => by
    rw [walkEntry, reachedFrom]
    split
    · rw [List.map_nil, List.append_nil, List.take_of_length_le (by omega)]
    · -- the texts of the locations in a folder start with the text of the folder
      rw [walk_eq select _ inner found (by omega), List.map_map]
      rfl
termination_by structural t => t

theorem walk_eq (select : String → Bool) {limit : Nat} (shown : String) :
    ∀ (entries : List (String × FileTree)) (found : List String), found.length ≤ limit →
      walk select limit shown entries found =
        (found ++ (reached select entries).map (shownAt shown)).take limit
  | [], found, h => by
    rw [walk, reached, List.map_nil, List.append_nil, List.take_of_length_le h]
  | (name, t) :: rest, found, h => by
    rw [walk]
    split
    · have hfull : limit = found.length := by omega
      rw [hfull, List.take_left]
    · rw [walkEntry_eq select shown name t found (by omega),
        walk_eq select shown rest _ (List.length_take_le _ _), take_append_take, reached,
        List.map_append, List.append_assoc]
termination_by structural es => es

end

theorem listing_eq (limit : Nat) (shown : String) (t : FileTree) :
    t.listing select limit shown = ((t.depthFirst select).take limit).map (shownAt shown) := by
  cases t with
  | file content modified => simp [listing, depthFirst, sorted]
  | folder entries =>
    rw [listing, depthFirst, sorted_folder]
    dsimp only
    rw [walk_eq select shown _ [] (Nat.zero_le limit), List.take_take, Nat.min_self,
      List.nil_append, List.map_take]

/-- No two of the first files of a proper tree have the same text. -/
theorem nodup_shownAt {t : FileTree} (h : t.isProper = true) (limit : Nat) (shown : String) :
    (((t.depthFirst select).take limit).map (shownAt shown)).Nodup := by
  have hlocations : ((t.depthFirst select).take limit).Nodup := by
    refine (pairwise_depthFirst h).take.imp fun hlt heq => ?_
    exact List.lt_irrefl _ (heq ▸ hlt)
  have hnames : ∀ l ∈ (t.depthFirst select).take limit,
      l ≠ [] ∧ ∀ name ∈ l, '/' ∉ name.toList := by
    intro l hl
    obtain ⟨hfile, hshown⟩ := (mem_depthFirst h).1 (List.mem_of_mem_take hl)
    obtain ⟨file, hfile⟩ := Option.isSome_iff_exists.1 hfile
    obtain ⟨u, hat, -⟩ := Option.bind_eq_some_iff.1 hfile
    refine ⟨?_, notMem_of_at? h hat⟩
    rintro rfl
    cases hshown
  refine List.Nodup.map_on (fun l hl m hm heq => ?_) hlocations
  exact shownAt_inj (hnames l hl).1 (hnames m hm).1 (hnames l hl).2 (hnames m hm).2 heq

end FileTree

/-! ## Patterns and answers -/

theorem Wildcard.ofElement_char (c : Char) :
    ofElement (.str c.toString) = .ok (some [ofChar c]) := by
  have hinj : ∀ d : Char, c.toString = d.toString → c = d := by
    simp [Char.toString_eq_singleton]
  unfold ofElement
  split
  · rename_i h
    cases hinj '*' (Value.str.inj h)
    rfl
  · rename_i h
    cases hinj '?' (Value.str.inj h)
    rfl
  · rename_i s hstar hmark h
    cases Value.str.inj h
    have hne : c ≠ '*' ∧ c ≠ '?' := ⟨fun hc => hstar (hc ▸ rfl), fun hc => hmark (hc ▸ rfl)⟩
    simp [ofChar, hne, Char.toString_eq_singleton]
  · rename_i h
    cases h
  · rename_i hstr _
    exact absurd rfl (hstr c.toString)

/-- A pattern that is a text means its characters, one piece for each. -/
theorem Wildcard.ofValue_str (s : String) : ofValue (.str s) = .ok (ofText s) := by
  have hmap : ∀ cs : List Char, (cs.map fun c => Value.str c.toString).mapM ofElement =
      .ok (cs.map fun c => some [ofChar c]) := by
    intro cs
    induction cs with
    | nil => rfl
    | cons c cs ih => rw [List.map_cons, List.mapM_cons, ofElement_char, ih]; rfl
  simp only [ofValue, Value.elements, Value.elements?, Result.pure_eq_ok, Result.ok_bind, hmap]
  rw [List.findIdx?_eq_none_iff.2 (by simp)]
  simp only [ofText, List.flatMap_map, Option.getD_some]
  rw [List.map_eq_flatMap]

namespace Effect

/-- The text that stands for a base in a listing: the base without slashes at its end, unless it has
nothing else. -/
def shownBase (base : String) : String :=
  if Text.dropTrailing '/' base == "" then "/" else Text.dropTrailing '/' base

variable {baseDir : Value} {files : FileSystem} {args : Bindings} {pattern base root : String}
  {entries : List (String × FileTree)}

theorem glob_eq (hpattern : orElse (args.getD "pattern" .null) (.str "*") = .str pattern)
    (hbase : orElse (args.getD "path" .null) (.str ".") = .str base)
    (hroot : resolvePath baseDir files (.str base) = .ok root)
    (hfolder : files.resolve root = .ok (.folder entries)) :
    glob baseDir files args = .ok (.list
      (((FileTree.folder entries).listing (Wildcard.selects (Wildcard.ofText pattern)) listingLimit
        (shownBase base)).map .str)) := by
  simp only [glob, hpattern, hbase, hroot, Wildcard.ofValue_str, hfolder, Result.ok_bind]
  rfl

/-- A listing of a folder holds the first hundred of the selected files that a walk without a limit
meets, depth first and by the order of names. The walk meets every file with a selected name that is
in no hidden folder, by the order of locations. No text stands for two files, and every text is the
base followed by the location of a file below the root. -/
theorem glob_first_of_walk
    (hpattern : orElse (args.getD "pattern" .null) (.str "*") = .str pattern)
    (hbase : orElse (args.getD "path" .null) (.str ".") = .str base)
    (hroot : resolvePath baseDir files (.str base) = .ok root)
    (hfolder : files.resolve root = .ok (.folder entries))
    (hproper : (FileTree.folder entries).isProper = true) :
    let select := Wildcard.selects (Wildcard.ofText pattern)
    let walked := (FileTree.folder entries).depthFirst select
    let shown := (walked.take 100).map (FileTree.shownAt (shownBase base))
    glob baseDir files args = .ok (.list (shown.map .str)) ∧
      (∀ l, l ∈ walked ↔ ((FileTree.folder entries).fileAt? l).isSome = true ∧
        FileTree.isShown select l = true) ∧
      walked.Pairwise (· < ·) ∧ shown.Nodup ∧
      ∀ text ∈ shown, ∃ l, ((FileTree.folder entries).fileAt? l).isSome = true ∧
        text = FileTree.shownAt (shownBase base) l := by
  intro select walked shown
  refine ⟨?_, fun l => FileTree.mem_depthFirst hproper, FileTree.pairwise_depthFirst hproper,
    FileTree.nodup_shownAt hproper 100 (shownBase base), ?_⟩
  · rw [glob_eq hpattern hbase hroot hfolder, FileTree.listing_eq]
    rfl
  · intro text htext
    obtain ⟨l, hl, rfl⟩ := List.mem_map.1 htext
    exact ⟨l, ((FileTree.mem_depthFirst hproper).1 (List.mem_of_mem_take hl)).1, rfl⟩

/-- The name of a file with a number of two digits. -/
def numberedName (n : Nat) : String :=
  String.ofList [(n / 10).digitChar, (n % 10).digitChar, '.', 'c']

/-- Files in the root, in a hidden folder and, a hundred of them, in a folder that is not hidden. -/
def sources : FileSystem where
  tree := .folder [("q.c", .file [] 0),
    ("b", .folder ((List.range 100).map fun n => (numberedName n, .file [] 0))),
    (".g", .folder [("o.c", .file [] 0)]), ("a.c", .file [] 0)]
  cwd := "/"
  home := "/"

/-- A walk meets a hundred and two files, not the one in the hidden folder. The listing ends before
the last file of the folder, and the file that follows the folder is not in it. -/
theorem glob_first_of_walk_sources :
    sources.tree.isProper = true ∧
    sources.tree.depthFirst (Wildcard.selects (Wildcard.ofText "*.c")) =
      ["a.c"] :: ((List.range 100).map fun n => ["b", numberedName n]) ++ [["q.c"]] ∧
    glob .null sources [(.str "pattern", .str "*.c")] = .ok (.list
      (.str "./a.c" :: (List.range 99).map fun n => .str ("./b/" ++ numberedName n))) := by
  have hproper : sources.tree.isProper = true := by decide +kernel
  have hroot : resolvePath .null sources (.str ".") = .ok "/" := by decide +kernel
  have hfolder : sources.resolve "/" = .ok sources.tree := by cbv
  have hwalked : sources.tree.depthFirst (Wildcard.selects (Wildcard.ofText "*.c")) =
      ["a.c"] :: ((List.range 100).map fun n => ["b", numberedName n]) ++ [["q.c"]] := by
    cbv
  have hpattern : orElse (Bindings.getD [(.str "pattern", .str "*.c")] "pattern" .null) (.str "*") =
      .str "*.c" := by
    cbv
  have hbase : orElse (Bindings.getD [(.str "pattern", .str "*.c")] "path" .null) (.str ".") =
      .str "." := by
    cbv
  obtain ⟨hglob, -⟩ := glob_first_of_walk hpattern hbase hroot hfolder hproper
  rw [show FileTree.depthFirst _ (.folder _) = _ from hwalked] at hglob
  exact ⟨hproper, hwalked, hglob⟩

end Effect

end TreeScript
