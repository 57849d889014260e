import LinkPilot.Migration

/-!
# Compiling a TypeScript config

`packages/config-dsl/src/compile.ts` prints a whole config document, and `run_config_compile`
(`crates/cli/src/main.rs`) hands it to `ConfigStore::replace`.  The DSL has no field for the state
that the GUI owns: rules of its own, custom browsers and half of the settings.

Principal results:

* `guiState_of_compile` — whatever is compiled, the state that the GUI owns comes out as a default.
* `compile_keeps_iff` — it survives a compile exactly when it was at its defaults before.
* `copy_dropped` — a compile drops the GUI's copy of a compiled rule.
-/

set_option autoImplicit false

namespace LinkPilot

open Serde

/-! ## The DSL -/

/-- The values that the compiler builds, with strings of a type `S`: `name` is a string that the
compiler itself has, `str` one that it was given. -/
structure Writer (S J : Type) where
  null : J
  bool : Bool → J
  num : Int → J
  name : String → J
  str : S → J
  arr : List J → J
  obj : List (String × J) → J

/-- `PendingRule`; `when` is the object itself, since `route.fromJson` hands over any. -/
structure PendingRule (S J : Type) where
  when : J
  action : J
  enabled : Bool
  note : Option S
  workspaceId : Option S

structure DslWorkspace (S : Type) where
  id : S
  displayName : S
  description : Option S
  enabled : Option Bool

/-- `DslSettings`, with a number or `null` of type `D` for `historyRetentionDays`. -/
structure DslSettings (D : Type) where
  launchAtLogin : Option Bool
  autoCheckUpdates : Option Bool
  historyRetentionDays : Option D
  recordQueryStrings : Option Bool
  smartRoutingEnabled : Option Bool
  askQuickOpenModifier : Option AskQuickOpenModifier

/-- `DslConfig`, with what `defaultTarget.toJSON()` returns. -/
structure DslConfig (S J : Type) where
  defaultTarget : J
  rules : List (PendingRule S J)
  workspaces : Option (List (DslWorkspace S))
  settings : Option (DslSettings J)

/-- The texts of the type of `askQuickOpenModifier`. -/
def modifierName : AskQuickOpenModifier → String
  | .off => "off"
  | .command => "command"
  | .option => "option"
  | .control => "control"
  | .shift => "shift"

section Compiler

variable {S J : Type} (w : Writer S J)

/-- `?? null`. -/
def Writer.orNull : Option S → J
  | none => w.null
  | some s => w.str s

def compileWorkspace (ws : DslWorkspace S) : J :=
  w.obj [("id", w.str ws.id), ("display_name", w.str ws.displayName),
    ("description", w.orNull ws.description), ("enabled", w.bool (ws.enabled.getD true))]

def compileSettings (s : Option (DslSettings J)) : J :=
  w.obj [("launch_at_login", w.bool ((s.bind DslSettings.launchAtLogin).getD false)),
    ("auto_check_updates", w.bool ((s.bind DslSettings.autoCheckUpdates).getD true)),
    ("history_retention_days", (s.bind DslSettings.historyRetentionDays).getD w.null),
    ("record_query_strings", w.bool ((s.bind DslSettings.recordQueryStrings).getD false)),
    ("smart_routing_enabled", w.bool ((s.bind DslSettings.smartRoutingEnabled).getD true)),
    ("ask_quick_open_modifier",
      w.name (modifierName ((s.bind DslSettings.askQuickOpenModifier).getD .command)))]

/-- The closure of `cfg.rules.map`, with the id that `uuid` returns. -/
def compileRule (id : RuleId) (r : PendingRule S J) : J :=
  w.obj [("id", w.name (uuidText id)), ("enabled", w.bool r.enabled), ("when", r.when),
    ("then", r.action), ("source", w.name "ts-compiled"), ("note", w.orNull r.note),
    ("workspace_id", w.orNull r.workspaceId)]

/-- `compile`, with the fresh ids of the rules. -/
def compile (ids : Nat → RuleId) (cfg : DslConfig S J) : J :=
  w.obj [("version", w.num 1), ("default_target", cfg.defaultTarget),
    ("rules", w.arr (cfg.rules.mapIdx fun i r => compileRule w (ids i) r)),
    ("workspaces", w.arr ((cfg.workspaces.getD []).map (compileWorkspace w))),
    ("custom_browsers", w.arr []), ("settings", compileSettings w cfg.settings),
    ("meta", w.obj [])]

end Compiler

/-- A config as the JSON that `JSON.stringify` makes of it. -/
def jsonWriter : Writer String Json := ⟨.null, .bool, .int, .str, .str, .arr, .obj⟩

/-! ## From one kind of value to another -/

section Map

variable {S J J' : Type}

def PendingRule.map (f : J → J') (r : PendingRule S J) : PendingRule S J' :=
  { r with when := f r.when, action := f r.action }

def DslSettings.map (f : J → J') (s : DslSettings J) : DslSettings J' :=
  { s with historyRetentionDays := s.historyRetentionDays.map f }

def DslConfig.map (f : J → J') (cfg : DslConfig S J) : DslConfig S J' where
  defaultTarget := f cfg.defaultTarget
  rules := cfg.rules.map (PendingRule.map f)
  workspaces := cfg.workspaces
  settings := cfg.settings.map (DslSettings.map f)

theorem map_mapIdx {α β γ : Type} (f : Nat → α → β) (g : β → γ) (l : List α) :
    (l.mapIdx f).map g = l.mapIdx fun i a => g (f i a) := by
  symm
  rw [List.mapIdx_eq_iff]
  intro i
  rw [List.getElem?_map, List.getElem?_mapIdx, Option.map_map]
  rfl

theorem mapIdx_map {α β γ : Type} (f : α → β) (g : Nat → β → γ) (l : List α) :
    (l.map f).mapIdx g = l.mapIdx fun i a => g i (f a) := by
  rw [List.mapIdx_eq_iff]
  intro i
  rw [List.getElem?_mapIdx, List.getElem?_map, Option.map_map]
  rfl

/-- What the one writes becomes what the other writes. -/
structure Writer.Writes (w : Writer S J) (w' : Writer S J') (f : J → J') : Prop where
  null : f w.null = w'.null
  bool : ∀ b, f (w.bool b) = w'.bool b
  num : ∀ n, f (w.num n) = w'.num n
  name : ∀ s, f (w.name s) = w'.name s
  str : ∀ s, f (w.str s) = w'.str s
  arr : ∀ js, f (w.arr js) = w'.arr (js.map f)
  obj : ∀ es, f (w.obj es) = w'.obj (es.map fun e => (e.1, f e.2))

variable {w : Writer S J} {w' : Writer S J'} {f : J → J'}

theorem Writer.Writes.orNull (h : w.Writes w' f) (o : Option S) : f (w.orNull o) = w'.orNull o := by
  cases o with
  | none => exact h.null
  | some s => exact h.str s

/-- **The compiler** works on values of any kind alike. -/
theorem Writer.Writes.compile (h : w.Writes w' f) (ids : Nat → RuleId) (cfg : DslConfig S J) :
    f (LinkPilot.compile w ids cfg) = LinkPilot.compile w' ids (cfg.map f) := by
  have hrule : ∀ id r, f (compileRule w id r) = compileRule w' id (PendingRule.map f r) := by
    intro id r
    simp only [compileRule, PendingRule.map, h.obj, h.name, h.bool, h.orNull, List.map_cons,
      List.map_nil]
  have hworkspace : ∀ ws, f (compileWorkspace w ws) = compileWorkspace w' ws := by
    intro ws
    simp only [compileWorkspace, h.obj, h.str, h.bool, h.orNull, List.map_cons, List.map_nil]
  have hdays : ∀ s : Option (DslSettings J),
      f ((s.bind DslSettings.historyRetentionDays).getD w.null) =
        ((s.map (DslSettings.map f)).bind DslSettings.historyRetentionDays).getD w'.null := by
    intro s
    cases s with
    | none => exact h.null
    | some s =>
      show f (s.historyRetentionDays.getD w.null) = (s.historyRetentionDays.map f).getD w'.null
      cases s.historyRetentionDays with
      | none => exact h.null
      | some days => rfl
  have hsettings : ∀ s, f (compileSettings w s) =
      compileSettings w' (s.map (DslSettings.map f)) := by
    intro s
    simp only [compileSettings, h.obj, h.bool, h.name, hdays, List.map_cons, List.map_nil]
    cases s <;> rfl
  have hrules : (cfg.rules.mapIdx fun i r => compileRule w (ids i) r).map f =
      (cfg.rules.map (PendingRule.map f)).mapIdx fun i r => compileRule w' (ids i) r := by
    rw [mapIdx_map, map_mapIdx]
    simp only [hrule]
  have hworkspaces : ((cfg.workspaces.getD []).map (compileWorkspace w)).map f =
      (cfg.workspaces.getD []).map (compileWorkspace w') := by
    rw [List.map_map]
    exact List.map_congr_left fun ws _ => hworkspace ws
  simp only [LinkPilot.compile, DslConfig.map, h.obj, h.arr, h.num, hsettings, hrules, hworkspaces,
    List.map_cons, List.map_nil]

end Map

/-! ## What is read of a compiled config -/

@[simp] theorem jsonWriter_orNull (o : Option String) : jsonWriter.orNull o = .ofOption .str o := by
  cases o <;> rfl

/-- The daemon has the names of the DSL. -/
theorem read_modifierName (m : AskQuickOpenModifier) :
    Json.unitVariant AskQuickOpenModifier.names (.str (modifierName m)) = some m := by
  cases m <;> rfl

theorem fromJson_compileRule (id : RuleId) (r : PendingRule String Json) :
    Rule.fromJson (compileRule jsonWriter id r) = (MatcherTree.fromJson r.when).bind fun when =>
      (Action.fromJson r.action).map fun action =>
        ⟨id, r.enabled, when, action, .tsCompiled, r.note, r.workspaceId⟩ := by
  simp only [compileRule, jsonWriter_orNull, Option.map_eq_bind]
  refine Json.record_obj ?_
  refine Fields.required_bind rfl (Uuid.fromJson_toJson id) ?_
  refine Fields.defaulted_bind rfl rfl ?_
  refine Fields.required_bind_congr rfl fun when => ?_
  refine Fields.required_bind_congr rfl fun action => ?_
  refine Fields.defaulted_bind rfl rfl ?_
  refine Fields.defaulted_bind rfl (optionString _) ?_
  exact Fields.defaulted_bind rfl (optionString _) rfl

/-- The workspace that a declaration stands for. -/
def DslWorkspace.toWorkspace (w : DslWorkspace String) : Workspace :=
  ⟨w.id, w.displayName, w.description, w.enabled.getD true⟩

/-- A declared workspace is written as the workspace would be. -/
theorem compileWorkspace_eq (w : DslWorkspace String) :
    compileWorkspace jsonWriter w = w.toWorkspace.toJson := by
  simp only [compileWorkspace, jsonWriter_orNull]
  rfl

theorem vec_compileWorkspace (ws : List (DslWorkspace String)) :
    Json.vec Workspace.fromJson (.arr (ws.map (compileWorkspace jsonWriter))) =
      some (ws.map DslWorkspace.toWorkspace) := by
  have hmap : ws.map (compileWorkspace jsonWriter) =
      (ws.map DslWorkspace.toWorkspace).map Workspace.toJson := by
    rw [List.map_map]
    exact List.map_congr_left fun w _ => compileWorkspace_eq w
  rw [hmap]
  exact Json.vec_map fun w _ => w.fromJson_toJson

theorem fromJson_compileSettings (s : Option (DslSettings Json)) :
    Settings.fromJson (compileSettings jsonWriter s) =
      (Json.option Json.u32 ((s.bind DslSettings.historyRetentionDays).getD .null)).map fun days =>
        { Settings.default with
          launchAtLogin := (s.bind DslSettings.launchAtLogin).getD false
          historyRetentionDays := days
          recordQueryStrings := (s.bind DslSettings.recordQueryStrings).getD false
          autoCheckUpdates := (s.bind DslSettings.autoCheckUpdates).getD true
          smartRoutingEnabled := (s.bind DslSettings.smartRoutingEnabled).getD true
          askQuickOpenModifier := (s.bind DslSettings.askQuickOpenModifier).getD .command } := by
  rw [Option.map_eq_bind]
  refine Json.record_obj ?_
  refine Fields.defaulted_bind rfl rfl ?_
  refine Fields.defaulted_bind_congr rfl fun days => ?_
  refine Fields.defaulted_bind rfl rfl ?_
  refine Fields.defaulted_bind rfl rfl ?_
  refine Fields.defaulted_bind rfl rfl ?_
  -- no `picker_style`
  refine Fields.missing_bind rfl ?_
  refine Fields.defaulted_bind rfl (read_modifierName _) ?_
  -- nor any of those behind it
  refine Fields.missing_bind rfl ?_
  refine Fields.missing_bind rfl ?_
  refine Fields.missing_bind rfl ?_
  refine Fields.missing_bind rfl ?_
  exact Fields.missing_bind rfl rfl

/-- **What is read.** The default target, the rules and the days of the history are read as
anybody's are; all else is as the DSL or its defaults have it. -/
theorem fromJson_compile (ids : Nat → RuleId) (cfg : DslConfig String Json) :
    ConfigDocument.fromJson (compile jsonWriter ids cfg) =
      (BrowserTarget.fromJson cfg.defaultTarget).bind fun defaultTarget =>
        (Json.vec Rule.fromJson
          (.arr (cfg.rules.mapIdx fun i r => compileRule jsonWriter (ids i) r))).bind fun rules =>
        (Settings.fromJson (compileSettings jsonWriter cfg.settings)).map fun settings =>
          ⟨SCHEMA_VERSION, defaultTarget, rules,
            (cfg.workspaces.getD []).map DslWorkspace.toWorkspace, [], settings, .default⟩ := by
  simp only [Option.map_eq_bind]
  refine Json.record_obj ?_
  refine Fields.defaulted_bind rfl rfl ?_
  refine Fields.required_bind_congr rfl fun defaultTarget => ?_
  refine Fields.defaulted_bind_congr rfl fun rules => ?_
  refine Fields.defaulted_bind rfl (vec_compileWorkspace _) ?_
  refine Fields.defaulted_bind rfl rfl ?_
  refine Fields.defaulted_bind_congr rfl fun settings => ?_
  exact Fields.defaulted_bind rfl rfl rfl

/-! ## What the GUI owns -/

/-- The state that the DSL has no field for. -/
structure GuiState where
  rules : List Rule
  customBrowsers : List InstalledBrowser
  pickerStyle : PickerStyle
  profileOrders : ProfileOrders
  disabledBrowsers : List String
  language : LanguagePref
  behaviorLogEnabled : Bool
  behaviorLogRetentionDays : Option UInt32

/-- None of its own rules and browsers, and `Settings::default()`. -/
def GuiState.default : GuiState where
  rules := []
  customBrowsers := []
  pickerStyle := .frosted
  profileOrders := .empty
  disabledBrowsers := []
  language := .system
  behaviorLogEnabled := true
  behaviorLogRetentionDays := some 90

/-- The rules whose source is `gui` or `file`, and the fields that no compile can express. -/
def ConfigDocument.guiState (d : ConfigDocument) : GuiState where
  rules := d.rules.filter fun r => decide (r.source ≠ .tsCompiled)
  customBrowsers := d.customBrowsers
  pickerStyle := d.settings.pickerStyle
  profileOrders := d.settings.profileOrders
  disabledBrowsers := d.settings.disabledBrowsers
  language := d.settings.language
  behaviorLogEnabled := d.settings.behaviorLogEnabled
  behaviorLogRetentionDays := d.settings.behaviorLogRetentionDays

/-- Every rule of a compiled config is `ts-compiled`. -/
theorem source_of_compile {ids : Nat → RuleId} {pending : List (PendingRule String Json)}
    {rules : List Rule}
    (h : Json.vec Rule.fromJson
      (.arr (pending.mapIdx fun i r => compileRule jsonWriter (ids i) r)) = some rules) :
    ∀ r ∈ rules, r.source = .tsCompiled := by
  intro r hr
  obtain ⟨j, hj, hread⟩ := Json.mapM_eq_some h r hr
  obtain ⟨i, hi, rfl⟩ := List.mem_mapIdx.mp hj
  rw [fromJson_compileRule] at hread
  obtain ⟨when, -, hread⟩ := Option.bind_eq_some_iff.mp hread
  obtain ⟨action, -, rfl⟩ := Option.map_eq_some_iff.mp hread
  rfl

/-- **What comes out.** Whatever is compiled, the state that the GUI owns is a default. -/
theorem guiState_of_compile {ids : Nat → RuleId} {cfg : DslConfig String Json} {d : ConfigDocument}
    (h : ConfigDocument.fromJson (compile jsonWriter ids cfg) = some d) :
    d.guiState = .default := by
  rw [fromJson_compile] at h
  obtain ⟨defaultTarget, -, h⟩ := Option.bind_eq_some_iff.mp h
  obtain ⟨rules, hrules, h⟩ := Option.bind_eq_some_iff.mp h
  obtain ⟨settings, hsettings, rfl⟩ := Option.map_eq_some_iff.mp h
  rw [fromJson_compileSettings] at hsettings
  obtain ⟨days, -, rfl⟩ := Option.map_eq_some_iff.mp hsettings
  have hnone : rules.filter (fun r => decide (r.source ≠ .tsCompiled)) = [] := by
    refine List.filter_eq_nil_iff.mpr fun r hr => ?_
    simp [source_of_compile hrules r hr]
  simp only [ConfigDocument.guiState, hnone]
  rfl

/-! ## `lpt config compile` -/

/-- `run_config_compile` without `--to`, on what `bun` printed: the result, and the config file it
leaves. -/
def runConfigCompile (limit : Nat) (file : Option Json) (env : LptEnv) (stdout : Json) :
    Except (ImportError LptError) Unit × Option Json :=
  match Json.fromStr limit ConfigDocument.fromJson stdout with
  | none => (.error .parsing, file)
  | some doc =>
    match configCompile (jsonCodec limit) file env doc with
    | (.error e, file) => (.error (.later e), file)
    | (.ok (), file) => (.ok (), file)

section Run

variable {limit : Nat} {file file' : Option Json} {env : LptEnv} {stdout : Json}

/-- A compile that succeeds leaves the document that was printed, and nothing of the live one. -/
theorem runConfigCompile_ok (h : runConfigCompile limit file env stdout = (.ok (), file')) :
    (∃ store, loadStore (jsonCodec limit) file env = .ok store) ∧
      ∃ doc, Json.fromStr limit ConfigDocument.fromJson stdout = some doc ∧
        file' = some (doc.withMeta ⟨some env.token, some .tsCompiled⟩).toJson := by
  unfold runConfigCompile at h
  split at h
  · cases h
  · rename_i doc hdoc
    split at h
    · cases h
    · rename_i file'' hcompile
      cases h
      obtain ⟨hload, hfile⟩ := rewriteFile_ok hcompile
      exact ⟨hload, doc, hdoc, hfile⟩

/-- The document that a compile leaves is loaded again. -/
theorem docOf_of_compile (hlimit : 5 ≤ limit)
    (h : runConfigCompile limit file env stdout = (.ok (), file')) :
    ∃ doc, ConfigDocument.fromJson stdout = some doc ∧ file'.bind (jsonCodec limit).docOf =
      some (doc.withMeta ⟨some env.token, some .tsCompiled⟩) := by
  obtain ⟨-, doc, hread, rfl⟩ := runConfigCompile_ok h
  obtain ⟨hdepth, hdoc⟩ := Json.fromStr_eq_some_iff.mp hread
  have hreads : (jsonCodec limit).ReadsBack doc := (jsonCodec_readsBack_iff hlimit).mpr fun r hr =>
    Nat.le_trans (ConfigDocument.nesting_le hdoc r hr) hdepth
  exact ⟨doc, hdoc, hreads.docOf rfl⟩

/-- **Compiling.** The state that the GUI owns survives a compile exactly when there was none of it:
no rules but `ts-compiled` ones, no custom browsers, and those settings at their defaults. -/
theorem compile_keeps_iff (hlimit : 5 ≤ limit) {ids : Nat → RuleId} {cfg : DslConfig String Json}
    (h : runConfigCompile limit file env (compile jsonWriter ids cfg) = (.ok (), file')) :
    ∃ store, loadStore (jsonCodec limit) file env = .ok store ∧
      ((∃ saved, file'.bind (jsonCodec limit).docOf = some saved ∧
          saved.guiState = store.document.guiState) ↔
        store.document.guiState = .default) := by
  obtain ⟨⟨store, hload⟩, -⟩ := runConfigCompile_ok h
  obtain ⟨doc, hdoc, hsaved⟩ := docOf_of_compile hlimit h
  have hdefault : (doc.withMeta ⟨some env.token, some .tsCompiled⟩).guiState = .default := by
    show doc.guiState = .default
    exact guiState_of_compile hdoc
  refine ⟨store, hload, ?_, ?_⟩
  · rintro ⟨saved, hsaved', hkeeps⟩
    cases hsaved.symm.trans hsaved'
    rw [← hkeeps, hdefault]
  · intro hlive
    exact ⟨_, hsaved, hdefault.trans hlive.symm⟩

/-! ## The GUI's copy of a compiled rule -/

/-- After a compile no rule of the GUI is there, a copy or any other. -/
theorem copy_dropped (hlimit : 5 ≤ limit) {ids : Nat → RuleId} {cfg : DslConfig String Json}
    (h : runConfigCompile limit file env (compile jsonWriter ids cfg) = (.ok (), file'))
    {t : Option String → String} {id : RuleId} {rule copy : Rule}
    (hcopy : copyRuleToGui t id rule = some copy) :
    ∃ saved, file'.bind (jsonCodec limit).docOf = some saved ∧ copy ∉ saved.rules := by
  obtain ⟨doc, hdoc, hsaved⟩ := docOf_of_compile hlimit h
  refine ⟨_, hsaved, fun hmem => ?_⟩
  have hgui : copy.source = .gui := by
    unfold copyRuleToGui at hcopy
    split at hcopy
    · cases hcopy
    · cases hcopy
      rfl
  have howned : copy ∈ doc.guiState.rules := by
    refine List.mem_filter.mpr ⟨hmem, ?_⟩
    rw [hgui]
    rfl
  rw [guiState_of_compile hdoc] at howned
  cases howned

end Run

/-- A config with one rule. -/
def blockAll : DslConfig String Json where
  defaultTarget := (BrowserTarget.new "chrome").toJson
  rules := [⟨MatcherTree.always.toJson, Action.block.toJson, true, none, none⟩]
  workspaces := none
  settings := none

/-- The rule that is compiled of it. -/
def compiledBlock : Rule := ⟨1#128, true, .always, .block, .tsCompiled, none, none⟩

/-- The copy of it. -/
def copiedBlock : Rule := ⟨2#128, true, .always, .block, .gui, some "Copied", none⟩

def quietEnv : LptEnv := ⟨fun _ => 0#128, 8#128, none, 9#128, none⟩

theorem loadStore_toJson {limit : Nat} {d : ConfigDocument} (hdepth : d.toJson.depth ≤ limit)
    (env : LptEnv) : loadStore (jsonCodec limit) (some d.toJson) env =
      .ok ⟨⟨d, d.metaBlock.lastWriterToken⟩, some d.toJson⟩ := by
  have hparse : (jsonCodec limit).parse d.toJson = some (d, false) :=
    (parse_toJson limit d).trans (if_pos hdepth)
  simp only [loadStore, ConfigStore.loadOrInit, hparse]
  rfl

theorem runConfigCompile_blockAll {d : ConfigDocument} (hdepth : d.toJson.depth ≤ 127) :
    runConfigCompile 127 (some d.toJson) quietEnv (compile jsonWriter (fun _ => 1#128) blockAll) =
      (.ok (), some ((currentConfig [compiledBlock]).withMeta
        ⟨some 9#128, some .tsCompiled⟩).toJson) := by
  have hdoc : ConfigDocument.fromJson (compile jsonWriter (fun _ => 1#128) blockAll) =
      some (currentConfig [compiledBlock]) := rfl
  have hread : Json.fromStr 127 ConfigDocument.fromJson
      (compile jsonWriter (fun _ => 1#128) blockAll) = some (currentConfig [compiledBlock]) :=
    Json.fromStr_eq_some_iff.mpr ⟨by decide +kernel, hdoc⟩
  simp only [runConfigCompile, hread, configCompile, rewriteFile, loadStore_toJson hdepth]
  rfl

/-- On a config of compiled rules alone nothing is lost. -/
theorem compile_keeps_compiled :
    ∃ saved, (some ((currentConfig [compiledBlock]).withMeta
        ⟨some 9#128, some .tsCompiled⟩).toJson).bind (jsonCodec 127).docOf = some saved ∧
      saved.guiState = (currentConfig [compiledBlock]).guiState := by
  have hdepth : (currentConfig [compiledBlock]).toJson.depth ≤ 127 := by decide +kernel
  obtain ⟨store, hload, hkeeps⟩ :=
    compile_keeps_iff (by decide) (runConfigCompile_blockAll hdepth)
  cases (loadStore_toJson hdepth quietEnv).symm.trans hload
  exact hkeeps.mpr rfl

/-- A user copies the compiled rule into the GUI; the next compile drops the copy. -/
theorem compile_drops_copy :
    copyRuleToGui (fun _ => "Copied") 2#128 compiledBlock = some copiedBlock ∧
      ∃ file', runConfigCompile 127
          (some (ruleUpsert copiedBlock (currentConfig [compiledBlock])).toJson) quietEnv
          (compile jsonWriter (fun _ => 1#128) blockAll) = (.ok (), file') ∧
        ∃ saved, file'.bind (jsonCodec 127).docOf = some saved ∧ copiedBlock ∉ saved.rules := by
  have hcopy : copyRuleToGui (fun _ => "Copied") 2#128 compiledBlock = some copiedBlock := rfl
  have hcompile := @runConfigCompile_blockAll
    (ruleUpsert copiedBlock (currentConfig [compiledBlock])) (by decide +kernel)
  exact ⟨hcopy, _, hcompile, copy_dropped (by decide) hcompile hcopy⟩

end LinkPilot
