import Mathlib
import TreeScript.Config
import TreeScript.Proofs.CapturedScopes
import TreeScript.Proofs.WrittenFiles
import TreeScript.Proofs.YamlPages
import TreeScript.Proofs.YamlValues
import TreeScript.Yaml.Bundled

/-!
# Saved settings

Settings that are saved are what is loaded again. Saving always writes YAML, while loading goes by
the ending of the file; this does no harm since the text of settings starts with the name of the
first of them (`Config.PlainDumps`), as no JSON does, and what is no JSON is read as YAML. Without a
path the settings are saved under the name that loading tries first.

Variables of the environment that are set take the place of settings, one for one
(`Config.withVariables`). They are texts, so that only the one for the most calls of the model can
be refused.
-/

namespace TreeScript

namespace Config

/-! ## Variables -/

/-- The variables of an environment as a value. -/
def environment (env : List (String × String)) : Value :=
  .ofFields (env.map fun e => (e.1, .str e.2))

/-- The text of a variable that is set to one that is not empty. -/
def setText? (env : List (String × String)) (name : String) : Option String :=
  (env.lookup name).filter (· != "")

/-- The setting that a variable gives, or another one if it is not set. -/
def setting (env : List (String × String)) (name : String) (saved : Value) : Value :=
  ((setText? env name).map .str).getD saved

/-- Settings in which the variables that are set give the settings that are texts. -/
def withTexts (c : Config) (env : List (String × String)) : Config :=
  { c with
    key := setting env "ANTHROPIC_API_KEY" c.key
    token := setting env "SAJ_TOKEN" c.token
    address := setting env "SAJ_API_URL" c.address
    model := setting env "SAJ_MODEL" c.model }

/-- Settings in which every variable that is set gives its setting. The most calls of the model are
the integer that their variable spells; if it spells none it is refused. -/
def withVariables (c : Config) (env : List (String × String)) : Result Config :=
  match setText? env "SAJ_MAX_DEPTH" with
  | none => .ok (c.withTexts env)
  | some text =>
    match readInt? text.toList with
    | some depth => .ok { c.withTexts env with maxDepth := depth }
    | none => .error (notSpelledInt 10 (Text.quoted text))

/-- The variables of an environment as bindings. -/
def boundTexts (env : List (String × String)) : Bindings :=
  env.map fun e => (.str e.1, .str e.2)

theorem environmentOf_environment (env : List (String × String)) :
    environmentOf (environment env) = .ok (boundTexts env) := by
  simp [environment, Value.ofFields, environmentOf, boundTexts]

theorem get?_boundTexts (env : List (String × String)) (name : String) :
    (boundTexts env).get? name = (env.lookup name).map .str := by
  induction env with
  | nil => rfl
  | cons e env ih =>
    obtain ⟨key, text⟩ := e
    have hcons : boundTexts ((key, text) :: env) = (.str key, .str text) :: boundTexts env := rfl
    rw [hcons, Bindings.get?_cons_str, ih, List.lookup_cons]
    by_cases h : name = key
    · simp [h]
    · simp [h, beq_false_of_ne h]

/-- Settings over which one variable takes precedence. -/
def overlaid (env : Bindings) (acc : Bindings) (variable_ : String × String) : Bindings :=
  let given := env.getD variable_.1 .null
  if given.truth then acc.put (.str variable_.2) given else acc

theorem override_eq (env fields : Bindings) :
    override env fields = overridingNames.foldl (overlaid env) fields := rfl

/-- A variable takes precedence if it is set, and over its own setting only. -/
theorem get?_overlaid (env : List (String × String)) (acc : Bindings)
    (variable_ key name : String) :
    (overlaid (boundTexts env) acc (variable_, key)).get? name =
      if name = key then ((setText? env variable_).map .str).or (acc.get? name)
      else acc.get? name := by
  have hgiven : (boundTexts env).getD variable_ .null =
      ((env.lookup variable_).map .str).getD .null := by
    rw [Bindings.getD, get?_boundTexts]
  unfold overlaid setText?
  dsimp only
  rw [hgiven]
  cases env.lookup variable_ with
  | none => simp [Value.truth]
  | some text =>
    by_cases htext : text = ""
    · simp [htext, Value.truth, Option.filter]
    · simp [htext, Value.truth, Bindings.get?_put, Option.filter]

/-- The settings that are loaded are those with the variables. -/
theorem ofValue_override (c : Config) (env : List (String × String)) (fields : Bindings)
    (hfields : c.toValue = .map fields) :
    ofValue (.map (override (boundTexts env) fields)) = c.withVariables env := by
  obtain rfl : fields = [
      (.str "model", c.model), (.str "max_depth", .int c.maxDepth),
      (.str "max_tokens", .int c.maxTokens), (.str "api_key", c.key), (.str "api_url", c.address),
      (.str "token", c.token), (.str "http", .map c.http), (.str "base_dir", c.baseDir)] :=
    (Value.map.inj hfields).symm
  have hsettings : ofValue (.map (override (boundTexts env) [
      (.str "model", c.model), (.str "max_depth", .int c.maxDepth),
      (.str "max_tokens", .int c.maxTokens), (.str "api_key", c.key), (.str "api_url", c.address),
      (.str "token", c.token), (.str "http", .map c.http), (.str "base_dir", c.baseDir)])) =
      (setting env "SAJ_MAX_DEPTH" (.int c.maxDepth)).toInt >>= fun depth =>
        .ok { c.withTexts env with maxDepth := depth } := by
    have htokens : (Value.int c.maxTokens).toInt = .ok c.maxTokens := rfl
    simp [ofValue, Value.toBindings, htokens, Bindings.getD, override_eq, overridingNames,
      get?_overlaid, setting, withTexts]
  rw [hsettings, setting, withVariables]
  cases setText? env "SAJ_MAX_DEPTH" with
  | none => rfl
  | some text =>
    show intOfText 10 text >>= _ = _
    dsimp only
    unfold intOfText readInt?
    cases readIntBase? 10 text.toList with
    | none => rfl
    | some depth => rfl

/-- Without variables that are set the settings are as they were. -/
theorem withVariables_unset {c : Config} {env : List (String × String)}
    (h : ∀ name ∈ overridingNames.map Prod.fst, setText? env name = none) :
    c.withVariables env = .ok c := by
  simp only [overridingNames, List.map_cons, List.map_nil, List.forall_mem_cons] at h
  obtain ⟨hkey, htoken, haddress, hmodel, hdepth, -⟩ := h
  simp [withVariables, withTexts, setting, hkey, htoken, haddress, hmodel, hdepth]

/-! ## Reading what was saved -/

/-- What has to be known of how a library dumps settings: the text starts with the name of the first
one, a plain word, and has no carriage return. -/
structure PlainDumps (yaml : Yaml.Library) : Prop where
  starts : ∀ {c : Config} {text : String}, yaml.dump c.toValue = .ok text →
    "model:".toList <+: text.toList
  noReturn : ∀ {c : Config} {text : String}, yaml.dump c.toValue = .ok text → '\r' ∉ text.toList

theorem plainDumps_bundled : PlainDumps .bundled where
  starts {c text} h := by
    have hkey : Yaml.writeKey 0 (.str "model") {} = .ok
        { pieces := [":", "model"], column := 6, spaced := false, indented := false } := rfl
    obtain ⟨more, hmore⟩ := Yaml.write_map_key hkey h
    exact ⟨more, hmore.symm⟩
  noReturn h hmem := absurd (Yaml.clean_write h '\r' hmem) (by decide)

theorem makeFolders_keepsFiles (fuel : Nat) (path : String) :
    (makeFolders fuel path).KeepsFiles := by
  induction fuel generalizing path with
  | zero => exact .ensureFolder path
  | succ fuel ih =>
    rw [makeFolders]
    refine (FileSystem.Change.KeepsFiles.makeFolder path).tryCatch fun failure => ?_
    split
    · split
      · exact .throw _
      · exact (ih _).bind fun _ => .ensureFolder path
    · refine FileSystem.Change.KeepsFiles.get.bind fun files => ?_
      split
      · exact .pure _
      · exact .throw _
    · exact .throw _

/-- Saving settings writes the text of their map to a file in some state of the file system, after
folders for it have been made. -/
theorem save_eq_ok {yaml : Yaml.Library} {c : Config} {path : Value} {files after : FileSystem}
    {file : String} (h : (c.save yaml path).run.run files = (.ok file, after)) :
    ∃ text before, yaml.dump c.toValue = .ok text ∧
      pathOf files (if path.truth then path else .str (Path.join defaultFolder "config.yaml")) =
        .ok file ∧
      before.home = files.home ∧
      (FileSystem.writeText file text).run.run before = (.ok (), after) := by
  obtain ⟨current, start, hget, h⟩ := run_run_bind_eq_ok h
  cases hget
  obtain ⟨given, start, hpath, h⟩ := run_run_bind_eq_ok h
  rw [FileSystem.Change.run_ofResult] at hpath
  obtain ⟨hfile, rfl⟩ := Prod.mk.inj hpath
  obtain ⟨_, before, hfolders, h⟩ := run_run_bind_eq_ok h
  obtain ⟨text, start, hyaml, h⟩ := run_run_bind_eq_ok h
  rw [FileSystem.Change.run_ofResult] at hyaml
  obtain ⟨htext, rfl⟩ := Prod.mk.inj hyaml
  obtain ⟨_, last, hwrite, h⟩ := run_run_bind_eq_ok h
  cases h
  have hkept := makeFolders_keepsFiles (file.length + 1) (Path.parent file) files
  rw [hfolders] at hkept
  exact ⟨text, before, htext, hfile, hkept.home, hwrite⟩

/-- Saved settings are read from the file to which they were saved. -/
theorem readFile_saved {yaml : Yaml.Library} (hplain : PlainDumps yaml) {c : Config}
    {file text : String} {before after : FileSystem} (htext : yaml.dump c.toValue = .ok text)
    (hwritten : (FileSystem.writeText file text).run.run before = (.ok (), after))
    (hload : yaml.load text = .ok c.toValue) {fields : Bindings}
    (hfields : c.toValue = .map fields) :
    readFile yaml after file = .ok fields := by
  obtain ⟨more, hmore⟩ := hplain.starts htext
  have hblank : (Text.trim text.toList).isEmpty = false := by
    rw [← hmore, List.isEmpty_eq_false_iff]
    exact Text.trimBy_cons_ne_nil (by decide +kernel) _
  have hdocument : ∀ format : Document.Format,
      Document.readNamed yaml (.str format.name) text = .ok c.toValue := by
    intro format
    have hjson : Json.read? text = none := Json.read?_eq_none hmore.symm (by decide) (by decide)
    have hread : Document.readAs yaml (format == .json) text = .ok c.toValue := by
      cases format <;> simp [Document.readAs, hjson, hload]
    cases format <;> exact hread
  rw [readFile, FileSystem.readText_writeText hwritten (hplain.noReturn htext)]
  simp only [Result.ok_bind, hblank, Bool.false_eq_true, if_false, hdocument, hfields]
  rfl

/-- A path depends on the file system only by its home directory. -/
theorem pathOf_congr {files after : FileSystem} (h : after.home = files.home) (path : Value) :
    pathOf after path = pathOf files path := by
  cases path <;> simp [pathOf, h]

/-- Loading after saving gives the settings with the variables that are set, whichever library dumps
them and loads what it has dumped. -/
theorem load_save {yaml : Yaml.Library} (hplain : PlainDumps yaml) {c : Config} {path : Value}
    {files after : FileSystem} {file : String}
    (hsaved : (c.save yaml path).run.run files = (.ok file, after))
    (hyaml : ∀ text, yaml.dump c.toValue = .ok text → yaml.load text = .ok c.toValue)
    (env : List (String × String)) :
    load yaml after path (environment env) = c.withVariables env ∧
      ((∀ name ∈ overridingNames.map Prod.fst, setText? env name = none) →
        load yaml after path (environment env) = .ok c) := by
  obtain ⟨text, before, htext, hfile, hhome, hwritten⟩ := save_eq_ok hsaved
  obtain ⟨fields, hfields⟩ : ∃ fields, c.toValue = .map fields := ⟨_, rfl⟩
  have hcontent := readFile_saved hplain htext hwritten (hyaml text htext) hfields
  have hload : load yaml after path (environment env) = c.withVariables env := by
    rw [← ofValue_override c env fields hfields]
    have hafter : after.home = files.home := by
      obtain ⟨-, location, -, -, rfl⟩ := FileSystem.writeBytes_eq_ok hwritten
      exact hhome
    cases hpath : path.truth with
    | true =>
      rw [hpath, if_pos rfl] at hfile
      have hfile' : pathOf after path = .ok file := by rw [pathOf_congr hafter, hfile]
      simp only [load, hpath, if_true, hfile', Result.ok_map, Result.ok_bind, hcontent,
        environmentOf_environment]
    | false =>
      rw [hpath, if_neg Bool.false_ne_true] at hfile
      have hfile' : defaultPath? after = some file := by
        have hfirst : Path.tidy
            (Path.expandHome after.home (Path.join defaultFolder "config.yaml")) =
            file := by
          rw [hafter]
          exact Except.ok.inj hfile
        have hpresent : after.isFile file = true := by
          rw [FileSystem.isFile, FileSystem.find?_writeBytes hwritten]
        rw [defaultPath?, fileNames, List.map_cons, hfirst, List.find?_cons_of_pos hpresent]
      simp only [load, hpath, Bool.false_eq_true, if_false, hfile', Result.pure_eq_ok,
        Result.ok_bind, hcontent, environmentOf_environment]
  refine ⟨hload, fun hunset => ?_⟩
  rw [hload, withVariables_unset hunset]

/-- Settings with an empty text and one that means a truth value without quotes. -/
def quietConfig : Config where
  model := .str "opus"
  maxDepth := 3
  maxTokens := 64
  key := .null
  address := .str ""
  token := .str "yes"
  http := []
  baseDir := .null

/-- The settings as a YAML text. -/
def quietText : String :=
  "model: opus\nmax_depth: 3\nmax_tokens: 64\napi_key: null\napi_url: ''\ntoken: 'yes'\n" ++
    "http: \x7b\x7d\nbase_dir: null\n"

/-- The tokens of a setting. -/
def settingTokens (name text : String) (plain : Bool) : List Yaml.Token :=
  [.key, .scalar name true, .value, .scalar text plain]

theorem scan_quietText :
    Yaml.Token.scan quietText =
      .blockMappingStart ::
        (settingTokens "model" "opus" true ++ settingTokens "max_depth" "3" true ++
        settingTokens "max_tokens" "64" true ++ settingTokens "api_key" "null" true ++
        settingTokens "api_url" "" false ++ settingTokens "token" "yes" false ++
        [.key, .scalar "http" true, .value, .flowMappingStart, .flowMappingEnd] ++
        settingTokens "base_dir" "null" true ++ [.blockEnd, .streamEnd]) := by
  decide +kernel

/-- The node of a setting. -/
def settingNode (name text : String) (tag : Yaml.Tag) : Yaml.Node × Yaml.Node :=
  (.scalar .str name, .scalar tag text)

/-- The settings as a node. -/
def quietNode : Yaml.Node :=
  .mapping .map [settingNode "model" "opus" .str, settingNode "max_depth" "3" .int,
    settingNode "max_tokens" "64" .int, settingNode "api_key" "null" .null,
    settingNode "api_url" "" .str, settingNode "token" "yes" .str,
    (.scalar .str "http", .mapping .map []), settingNode "base_dir" "null" .null]

theorem read_quietText : Yaml.read quietText = .ok quietConfig.toValue := by
  have hroot : Yaml.Node.read quietText = .ok (some quietNode) := by
    rw [Yaml.Node.read, scan_quietText]
    rfl
  have hplain : quietNode.plainValue? = some quietConfig.toValue := by cbv
  exact Yaml.read_of_plainValue? hroot hplain

/-- A file that is named for JSON, a variable that is empty and one with a blank in front of a
number.
-/
theorem load_save_quietConfig :
    ∃ after,
      (quietConfig.save .bundled (.str "~/settings.json")).run.run
          { tree := .folder [("home", .folder [])], cwd := "/", home := "/home" } =
        (.ok "/home/settings.json", after) ∧
      (∀ text, Yaml.Library.bundled.dump quietConfig.toValue = .ok text →
        Yaml.Library.bundled.load text = .ok quietConfig.toValue) ∧
      load .bundled after (.str "~/settings.json")
          (environment [("SAJ_MODEL", ""), ("SAJ_MAX_DEPTH", " 12")]) =
        .ok { quietConfig with maxDepth := 12 } ∧
      load .bundled after (.str "~/settings.json") (environment []) = .ok quietConfig := by
  generalize hrun : (quietConfig.save .bundled (.str "~/settings.json")).run.run
    { tree := .folder [("home", .folder [])], cwd := "/", home := "/home" } = saved
  have hfile : saved.1.toOption = some "/home/settings.json" := by
    rw [← hrun]
    decide +kernel
  have hwrite : (Yaml.write quietConfig.toValue).toOption = some quietText := by decide +kernel
  have hyaml : ∀ text, Yaml.Library.bundled.dump quietConfig.toValue = .ok text →
      Yaml.Library.bundled.load text = .ok quietConfig.toValue := by
    intro text (htext : Yaml.write quietConfig.toValue = .ok text)
    rw [Yaml.toOption_eq_some.1 hwrite] at htext
    cases htext
    exact read_quietText
  have hsaved : saved = (.ok "/home/settings.json", saved.2) := by
    rw [← Yaml.toOption_eq_some.1 hfile]
    rfl
  rw [hsaved] at hrun
  refine ⟨saved.2, hsaved, hyaml, ?_, (load_save plainDumps_bundled hrun hyaml []).2 fun _ _ => rfl⟩
  rw [(load_save plainDumps_bundled hrun hyaml _).1, withVariables]
  have hdepth : readInt? [' ', '1', '2'] = some 12 := by decide +kernel
  show (match readInt? [' ', '1', '2'] with | some depth => _ | none => _) = _
  rw [hdepth]
  rfl

end Config

end TreeScript
