import Mathlib
import TreeScript.Effect.Dispatch
import TreeScript.Platform.Bundled
import TreeScript.Proofs.FilePages

/-!
# Reading what was written

Writing a file keeps a text as it is, and reading one makes every carriage return, with the line
feed that may come after it, a line feed. So a text that was written is read as it was exactly if it
has no carriage return. Apart from the file that was written, no file is another one afterwards,
although there may be new folders.
-/

namespace TreeScript

/-- A text is the same with plain line ends exactly if it has no carriage return. -/
theorem Text.plainBreaks_eq_self_iff (text : String) :
    String.ofList (plainBreaks text.toList) = text ↔ '\r' ∉ text.toList := by
  constructor
  · intro h
    rw [← h, String.toList_ofList]
    exact notMem_plainBreaks text.toList
  · intro h
    rw [plainBreaks_of_notMem h, String.ofList_toList]

namespace FileSystem

/-- A text that was written, with the folders around it, is at the location that its path leads to,
and all other files are as they were. -/
theorem writeWithFolders_eq_ok {path text : String} {fs fs' : FileSystem}
    (h : (writeWithFolders path text).run.run fs = (.ok (), fs')) :
    fs'.cwd = fs.cwd ∧ fs'.home = fs.home ∧
      fs'.readText path = .ok (String.ofList (Text.plainBreaks text.toList)) ∧
      ∃ location, fs'.locate true path = .ok location ∧
        fs'.tree.fileAt? location = some (Text.encodeUtf8 text, unrecorded) ∧
        ∀ l, l ≠ location → fs'.tree.fileAt? l = fs.tree.fileAt? l := by
  obtain ⟨_, before, hfolders, hwrite⟩ := run_run_bind_eq_ok h
  have hsame : SameFiles fs before := by
    have hkept := Change.KeepsFiles.ensureFolders (path.length + 1)
      (if Path.folder path == "" then "." else Path.folder path) fs
    rwa [hfolders] at hkept
  have hread := readText_written hwrite
  obtain ⟨-, location, hlocate, hfolder, rfl⟩ := writeBytes_eq_ok hwrite
  obtain ⟨hlocated, hat⟩ := locate_withFile hlocate hfolder (Text.encodeUtf8 text)
  refine ⟨hsame.cwd, hsame.home, hread, location, hlocated, ?_, fun l hl => ?_⟩
  · rw [FileTree.fileAt?, hat]
    rfl
  · rw [← hsame.files l]
    exact FileTree.fileAt?_put hfolder (fun _ _ => rfl) fun h => absurd h hl

end FileSystem

variable {τ : Type}

theorem Act.run_ofResult {α : Type} (x : Result α) (host : Host τ) :
    (Act.ofResult x).run.run host = (x, host) := by
  cases x <;> rfl

/-- The host with other files. -/
def Host.withFiles (host : Host τ) (files : FileSystem) : Host τ :=
  { host with world := { host.world with files := files } }

theorem Act.run_change {α : Type} (c : FileSystem.Change α) (host : Host τ) :
    (Act.change c).run.run host =
      ((c.run.run host.world.files).1, host.withFiles (c.run.run host.world.files).2) :=
  Act.run_ofResult _ _

namespace Effect

/-- The arguments of writing a text to a file. -/
def writeArgs (path : Value) (text : String) : Bindings :=
  [(.str "path", path), (.str "content", .str text)]

/-- What a path means depends on the places where paths start, not on the files. -/
theorem resolvePath_congr {files files' : FileSystem} (hcwd : files'.cwd = files.cwd)
    (hhome : files'.home = files.home) (baseDir path : Value) :
    resolvePath baseDir files' path = resolvePath baseDir files path := by
  simp only [resolvePath, baseOf, hcwd, hhome]

variable {path : Value} {text : String} {host after : Host τ}

/-- Writing a text changes the files at the place that the path means. -/
theorem run_writeFile (path : Value) (text : String) (host : Host τ) :
    (Builtin.writeFile.run (writeArgs path text)).run.run host =
      (Act.ofResult (resolvePath host.context.baseDir host.world.files path) >>= fun place =>
        Act.change (FileSystem.writeWithFolders place text) >>= fun _ =>
          pure (.str "ok")).run.run host := by
  have hwriting : writing host.context.baseDir host.world.files (writeArgs path text) =
      (resolvePath host.context.baseDir host.world.files path >>= fun place =>
        .ok (place, text)) := by
    simp [writing, writeArgs, Bindings.getD, Value.text]
  have hget : (MonadState.get : Act τ (Host τ)).run.run host = (.ok host, host) := rfl
  rw [Builtin.run, writeFile, run_run_bind, hget]
  dsimp only
  rw [run_run_bind, Act.run_ofResult, hwriting, run_run_bind, Act.run_ofResult]
  cases resolvePath host.context.baseDir host.world.files path <;> rfl

theorem writeFile_eq_ok
    (h : (Builtin.writeFile.run (writeArgs path text)).run.run host = (.ok (.str "ok"), after)) :
    ∃ place files, resolvePath host.context.baseDir host.world.files path = .ok place ∧
      (FileSystem.writeWithFolders place text).run.run host.world.files = (.ok (), files) ∧
      after = host.withFiles files := by
  rw [run_writeFile] at h
  obtain ⟨place, _, hresolved, h⟩ := run_run_bind_eq_ok h
  rw [Act.run_ofResult] at hresolved
  obtain ⟨hplace, rfl⟩ := Prod.mk.inj hresolved
  obtain ⟨_, _, hchange, h⟩ := run_run_bind_eq_ok h
  rcases hwrite : (FileSystem.writeWithFolders place text).run.run host.world.files with
    ⟨outcome, files⟩
  rw [Act.run_change, hwrite] at hchange
  obtain ⟨rfl, rfl⟩ := Prod.mk.inj hchange
  cases h
  exact ⟨place, files, hplace, hwrite, rfl⟩

/-- A text that was written is read with plain line ends, hence as it was exactly if it has no
carriage return. Nothing else has changed than the file at the location that the path leads to, and
the folders. -/
theorem read_after_write
    (h : (Builtin.writeFile.run (writeArgs path text)).run.run host = (.ok (.str "ok"), after)) :
    (Builtin.readFile.run (pathArgs path)).run.run after =
        (.ok (.str (String.ofList (Text.plainBreaks text.toList))), after) ∧
      ((Builtin.readFile.run (pathArgs path)).run.run after = (.ok (.str text), after) ↔
        '\r' ∉ text.toList) ∧
      after = host.withFiles after.world.files ∧
      ∃ place location, resolvePath host.context.baseDir host.world.files path = .ok place ∧
        after.world.files.locate true place = .ok location ∧
        after.world.files.tree.fileAt? location =
          some (Text.encodeUtf8 text, FileSystem.unrecorded) ∧
        ∀ l, l ≠ location →
          after.world.files.tree.fileAt? l = host.world.files.tree.fileAt? l := by
  obtain ⟨place, files, hplace, hwritten, rfl⟩ := writeFile_eq_ok h
  obtain ⟨hcwd, hhome, hread, location, hlocate, hfile, hothers⟩ :=
    FileSystem.writeWithFolders_eq_ok hwritten
  have hresult : readFile host.context.baseDir files (pathArgs path) =
      .ok (.str (String.ofList (Text.plainBreaks text.toList))) := by
    simp [readFile, pathArgs, Bindings.getD, resolvePath_congr hcwd hhome, hplace, hread]
  have hrun : (Builtin.readFile.run (pathArgs path)).run.run (host.withFiles files) =
      (.ok (.str (String.ofList (Text.plainBreaks text.toList))), host.withFiles files) := by
    rw [← hresult]
    exact Act.run_ofResult _ _
  refine ⟨hrun, ?_, rfl, place, location, hplace, hlocate, hfile, hothers⟩
  rw [hrun, ← Text.plainBreaks_eq_self_iff]
  exact ⟨fun h => Value.str.inj (Except.ok.inj (Prod.mk.inj h).1), fun h => by rw [h]⟩

/-- A host whose files are some notes. -/
def noteHost : Host Unit where
  context := { Context.default with baseDir := .str "/" }
  world := .ofFiles .bundled notes
  own := ()

/-- A text with a carriage return, which is written to a new folder, is read with a line feed in its
place. -/
theorem read_after_write_return :
    ∃ after, (Builtin.writeFile.run (writeArgs (.str "sub/out") "a\rb")).run.run noteHost =
        (.ok (.str "ok"), after) ∧
      (Builtin.readFile.run (pathArgs (.str "sub/out"))).run.run after =
        (.ok (.str "a\nb"), after) ∧
      after.world.files.tree.fileAt? ["notes"] = some (Text.encodeUtf8 "a\n\nB\n", 0) := by
  have hplace : resolvePath noteHost.context.baseDir noteHost.world.files (.str "sub/out") =
      .ok "/sub/out" := by
    decide +kernel
  rcases hwrite : (FileSystem.writeWithFolders "/sub/out" "a\rb").run.run noteHost.world.files with
    ⟨outcome, files⟩
  obtain ⟨rfl, hlocation⟩ :
      outcome = .ok () ∧ files.locate true "/sub/out" = .ok ["sub", "out"] := by
    have hdone : ((FileSystem.writeWithFolders "/sub/out" "a\rb").run.run noteHost.world.files).1 =
        .ok () := by
      decide +kernel
    have hlocated :
        ((FileSystem.writeWithFolders "/sub/out" "a\rb").run.run noteHost.world.files).2.locate
          true "/sub/out" = .ok ["sub", "out"] := by
      decide +kernel
    rw [hwrite] at hdone hlocated
    exact ⟨hdone, hlocated⟩
  have hrun : (Builtin.writeFile.run (writeArgs (.str "sub/out") "a\rb")).run.run noteHost =
      (.ok (.str "ok"), noteHost.withFiles files) := by
    rw [run_writeFile, run_run_bind, Act.run_ofResult, hplace]
    dsimp only
    rw [run_run_bind, Act.run_change, hwrite]
    rfl
  obtain ⟨hread, -, -, place, location, hresolved, hlocate, -, hothers⟩ := read_after_write hrun
  obtain rfl : "/sub/out" = place := Except.ok.inj (hplace.symm.trans hresolved)
  obtain rfl : ["sub", "out"] = location := Except.ok.inj (hlocation.symm.trans hlocate)
  exact ⟨_, hrun, hread, hothers ["notes"] (by decide)⟩

end Effect

end TreeScript
