import LinkPilot.Compile
import LinkPilot.Explain
import LinkPilot.Lib.Stringify
import LinkPilot.Server

/-!
# The config DSL

`packages/config-dsl/src` builds a config by calls on `browser` and `route`, and `printConfig`
writes it as JSON, which `lpt config compile` decodes.  The strings of a config are of a type of
their own: those of JavaScript, or Unicode texts.

* `printConfig_read` — what is printed is read as the document that the expressions stand for.
* `evaluate_iff_means` — the router decides by the first rule of the DSL that matches.
* `printConfig_faithful` — both, of every config of Unicode texts.
* `lone_surrogate_refused` — a JavaScript string need not be one.
-/

set_option autoImplicit false

namespace LinkPilot.Dsl

open Serde JavaScript

section Builders

variable {S : Type}

/-! ## `targets.ts` -/

structure Target (S : Type) where
  browser : S
  profile : Option S
  workspace : Option S
  incognito : Bool
  newWindow : Bool

namespace Target

/-- What a handle of `browser` returns. -/
def new (browser : S) : Target S := ⟨browser, none, none, false, false⟩

def withProfile (t : Target S) (name : S) : Target S := { t with profile := some name }

def withWorkspace (t : Target S) (id : S) : Target S := { t with workspace := some id }

def asIncognito (t : Target S) : Target S := { t with incognito := true }

def asNewWindow (t : Target S) : Target S := { t with newWindow := true }

def toJSON (t : Target S) : Value S :=
  .obj [("browser", .str t.browser), ("profile", .orNull t.profile),
    ("workspace", .orNull t.workspace), ("incognito", .bool t.incognito),
    ("new_window", .bool t.newWindow)]

end Target

/-! ## `matchers.ts` -/

structure RouteBuilder (S : Type) where
  matcher : Value S
  isEnabled : Bool
  noteText : Option S
  workspaceId : Option S

namespace RouteBuilder

def new (matcher : Value S) : RouteBuilder S := ⟨matcher, true, none, none⟩

def disabled (b : RouteBuilder S) : RouteBuilder S := { b with isEnabled := false }

def note (b : RouteBuilder S) (text : S) : RouteBuilder S := { b with noteText := some text }

def workspace (b : RouteBuilder S) (id : S) : RouteBuilder S := { b with workspaceId := some id }

def finalize (b : RouteBuilder S) (action : Value S) : PendingRule S (Value S) :=
  ⟨b.matcher, action, b.isEnabled, b.noteText, b.workspaceId⟩

/-- `to`. -/
def toTarget (b : RouteBuilder S) (target : Target S) : PendingRule S (Value S) :=
  ⟨b.matcher, .obj [("kind", .name "open"), ("target", target.toJSON)], b.isEnabled, b.noteText,
    b.workspaceId⟩

def keepSource (b : RouteBuilder S) : PendingRule S (Value S) :=
  b.finalize (.obj [("kind", .name "keep-source")])

def ask (b : RouteBuilder S) : PendingRule S (Value S) := b.finalize (.obj [("kind", .name "ask")])

def block (b : RouteBuilder S) : PendingRule S (Value S) :=
  b.finalize (.obj [("kind", .name "block")])

end RouteBuilder

-- the entries of `route`, but for `fromJson`, which hands over any object

def route.host (pattern : S) : RouteBuilder S :=
  .new (.obj [("op", .name "url-host"), ("pattern", .str pattern)])

def route.path (pattern : S) : RouteBuilder S :=
  .new (.obj [("op", .name "url-path"), ("pattern", .str pattern)])

def route.fromApp (name : S) (bundleId : Option S) : RouteBuilder S :=
  .new (.obj [("op", .name "source-app"), ("name", .str name), ("bundle_id", .orNull bundleId)])

def route.fromBrowser (id : S) : RouteBuilder S :=
  .new (.obj [("op", .name "source-browser"), ("browser", .str id)])

def route.fromProfile (profileId : S) : RouteBuilder S :=
  .new (.obj [("op", .name "source-profile"), ("profile", .str profileId)])

def route.all (subs : List (RouteBuilder S)) : RouteBuilder S :=
  .new (.obj [("op", .name "all"), ("of", .arr (subs.map RouteBuilder.matcher))])

def route.any (subs : List (RouteBuilder S)) : RouteBuilder S :=
  .new (.obj [("op", .name "any"), ("of", .arr (subs.map RouteBuilder.matcher))])

def route.not (sub : RouteBuilder S) : RouteBuilder S :=
  .new (.obj [("op", .name "not"), ("of", sub.matcher)])

def route.always : RouteBuilder S := .new (.obj [("op", .name "always")])

/-! ## `compile.ts` -/

/-- A config as the value that the compiler makes of it. -/
def valueWriter : Writer S (Value S) := ⟨.null, .bool, .num, .name, .str, .arr, .obj⟩

/-- `historyRetentionDays`: `null` or an integer. -/
def daysValue : Option UInt32 → Value S
  | none => .null
  | some days => .num days.toNat

/-- `printConfig`: the bytes on stdout. -/
def printConfig (units : S → JsString) (ids : Nat → RuleId) (cfg : DslConfig S (Value S)) :
    List UInt8 :=
  Json.toUtf8 ((compile valueWriter ids cfg).stringify units)

/-! ## Config files -/

/-- An expression that builds a `Target`. -/
inductive TargetExpr (S : Type) where
  | handle (id : S)
  | withProfile (t : TargetExpr S) (name : S)
  | withWorkspace (t : TargetExpr S) (id : S)
  | asIncognito (t : TargetExpr S)
  | asNewWindow (t : TargetExpr S)

def TargetExpr.build : TargetExpr S → Target S
  | .handle id => .new id
  | .withProfile t name => t.build.withProfile name
  | .withWorkspace t id => t.build.withWorkspace id
  | .asIncognito t => t.build.asIncognito
  | .asNewWindow t => t.build.asNewWindow

/-- An expression that builds a `RouteBuilder`. -/
inductive RouteExpr (S : Type) where
  | host (pattern : S)
  | path (pattern : S)
  | fromApp (name : S) (bundleId : Option S)
  | fromBrowser (id : S)
  | fromProfile (profileId : S)
  | all (subs : List (RouteExpr S))
  | any (subs : List (RouteExpr S))
  | not (sub : RouteExpr S)
  | always
  | disabled (r : RouteExpr S)
  | note (r : RouteExpr S) (text : S)
  | workspace (r : RouteExpr S) (id : S)

mutual

def RouteExpr.build : RouteExpr S → RouteBuilder S
  | .host pattern => route.host pattern
  | .path pattern => route.path pattern
  | .fromApp name bundleId => route.fromApp name bundleId
  | .fromBrowser id => route.fromBrowser id
  | .fromProfile profileId => route.fromProfile profileId
  | .all subs => route.all (RouteExpr.buildAll subs)
  | .any subs => route.any (RouteExpr.buildAll subs)
  | .not sub => route.not sub.build
  | .always => route.always
  | .disabled r => r.build.disabled
  | .note r text => r.build.note text
  | .workspace r id => r.build.workspace id

def RouteExpr.buildAll : List (RouteExpr S) → List (RouteBuilder S)
  | [] => []
  | r :: rs => r.build :: RouteExpr.buildAll rs

end

/-- The last call of a rule. -/
inductive Terminal (S : Type) where
  | toTarget (target : TargetExpr S)
  | keepSource
  | ask
  | block

structure RuleExpr (S : Type) where
  route : RouteExpr S
  terminal : Terminal S

def RuleExpr.build (r : RuleExpr S) : PendingRule S (Value S) :=
  match r.terminal with
  | .toTarget target => r.route.build.toTarget target.build
  | .keepSource => r.route.build.keepSource
  | .ask => r.route.build.ask
  | .block => r.route.build.block

/-- The argument of `defineConfig`. -/
structure ConfigExpr (S : Type) where
  defaultTarget : TargetExpr S
  rules : List (RuleExpr S)
  workspaces : Option (List (DslWorkspace S))
  settings : Option (DslSettings (Option UInt32))

def ConfigExpr.build (cfg : ConfigExpr S) : DslConfig S (Value S) :=
  ⟨cfg.defaultTarget.build.toJSON, cfg.rules.map RuleExpr.build, cfg.workspaces,
    cfg.settings.map (DslSettings.map daysValue)⟩

end Builders

/-! ## What the expressions stand for -/

section Meaning

/-- The target of an expression. -/
def TargetExpr.target : TargetExpr String → BrowserTarget
  | .handle id => .new id
  | .withProfile t name => { t.target with profile := some name }
  | .withWorkspace t id => { t.target with workspace := some id }
  | .asIncognito t => { t.target with incognito := true }
  | .asNewWindow t => { t.target with newWindow := true }

mutual

/-- The matcher of an expression. -/
def RouteExpr.tree : RouteExpr String → MatcherTree
  | .host pattern => .urlHost pattern
  | .path pattern => .urlPath pattern
  | .fromApp name bundleId => .sourceApp name bundleId
  | .fromBrowser id => .sourceBrowser id
  | .fromProfile profileId => .sourceProfile profileId
  | .all subs => .all (RouteExpr.trees subs)
  | .any subs => .any (RouteExpr.trees subs)
  | .not sub => .not sub.tree
  | .always => .always
  | .disabled r => r.tree
  | .note r _ => r.tree
  | .workspace r _ => r.tree

def RouteExpr.trees : List (RouteExpr String) → List MatcherTree
  | [] => []
  | r :: rs => r.tree :: RouteExpr.trees rs

end

variable {S : Type}

/-- No call of `disabled` on the rule itself. -/
def RouteExpr.enabled : RouteExpr S → Bool
  | .disabled _ => false
  | .note r _ => r.enabled
  | .workspace r _ => r.enabled
  | _ => true

/-- The last `note` of the rule itself. -/
def RouteExpr.noteOf : RouteExpr S → Option S
  | .note _ text => some text
  | .disabled r => r.noteOf
  | .workspace r _ => r.noteOf
  | _ => none

/-- The last `workspace` of the rule itself. -/
def RouteExpr.workspaceOf : RouteExpr S → Option S
  | .workspace _ id => some id
  | .disabled r => r.workspaceOf
  | .note r _ => r.workspaceOf
  | _ => none

/-- The action of a terminal. -/
def Terminal.action : Terminal String → Action
  | .toTarget target => .openWith target.target
  | .keepSource => .keepSource
  | .ask => .ask
  | .block => .block

/-- The rule of an expression. -/
def RuleExpr.rule (id : RuleId) (r : RuleExpr String) : Rule where
  id := id
  enabled := r.route.enabled
  when := r.route.tree
  action := r.terminal.action
  source := .tsCompiled
  note := r.route.noteOf
  workspaceId := r.route.workspaceOf

/-- The settings that are given, and the defaults of the daemon for the others. -/
def settingsOf (s : Option (DslSettings (Option UInt32))) : Settings :=
  let d := Settings.default
  { d with
    launchAtLogin := (s.bind DslSettings.launchAtLogin).getD d.launchAtLogin
    autoCheckUpdates := (s.bind DslSettings.autoCheckUpdates).getD d.autoCheckUpdates
    historyRetentionDays := (s.bind DslSettings.historyRetentionDays).getD d.historyRetentionDays
    recordQueryStrings := (s.bind DslSettings.recordQueryStrings).getD d.recordQueryStrings
    smartRoutingEnabled := (s.bind DslSettings.smartRoutingEnabled).getD d.smartRoutingEnabled
    askQuickOpenModifier := (s.bind DslSettings.askQuickOpenModifier).getD d.askQuickOpenModifier }

/-- The document of a config file. -/
def ConfigExpr.document (ids : Nat → RuleId) (cfg : ConfigExpr String) : ConfigDocument where
  version := SCHEMA_VERSION
  defaultTarget := cfg.defaultTarget.target
  rules := cfg.rules.mapIdx fun i r => r.rule (ids i)
  workspaces := (cfg.workspaces.getD []).map DslWorkspace.toWorkspace
  customBrowsers := []
  settings := settingsOf cfg.settings
  metaBlock := .default

end Meaning

/-! ## What is printed -/

section Printed

/-- The target that is written. -/
theorem TargetExpr.toJson_build (t : TargetExpr String) :
    t.build.toJSON.toJson = t.target.toJson := by
  have hfields : t.build.browser = t.target.browser ∧ t.build.profile = t.target.profile ∧
      t.build.workspace = t.target.workspace ∧ t.build.incognito = t.target.incognito ∧
      t.build.newWindow = t.target.newWindow := by
    induction t with
    | handle id => exact ⟨rfl, rfl, rfl, rfl, rfl⟩
    | withProfile t name ih => exact ⟨ih.1, rfl, ih.2.2⟩
    | withWorkspace t id ih => exact ⟨ih.1, ih.2.1, rfl, ih.2.2.2⟩
    | asIncognito t ih => exact ⟨ih.1, ih.2.1, ih.2.2.1, rfl, ih.2.2.2.2⟩
    | asNewWindow t ih => exact ⟨ih.1, ih.2.1, ih.2.2.1, ih.2.2.2.1, rfl⟩
  obtain ⟨hbrowser, hprofile, hworkspace, hincognito, hwindow⟩ := hfields
  simp only [Target.toJSON, BrowserTarget.toJson, Value.toJson, Value.toJsonEntries,
    Value.toJson_orNull, hbrowser, hprofile, hworkspace, hincognito, hwindow]

mutual

/-- The matcher that is written. -/
theorem RouteExpr.toJson_build : ∀ r : RouteExpr String, r.build.matcher.toJson = r.tree.toJson
  | .host _ => rfl
  | .path _ => rfl
  | .fromApp _ bundleId => by cases bundleId <;> rfl
  | .fromBrowser _ => rfl
  | .fromProfile _ => rfl
  | .all subs => by
    simp only [RouteExpr.build, route.all, RouteBuilder.new, RouteExpr.tree, MatcherTree.toJson,
      Value.toJson, Value.toJsonEntries, RouteExpr.toJson_buildAll subs]
  | .any subs => by
    simp only [RouteExpr.build, route.any, RouteBuilder.new, RouteExpr.tree, MatcherTree.toJson,
      Value.toJson, Value.toJsonEntries, RouteExpr.toJson_buildAll subs]
  | .not sub => by
    simp only [RouteExpr.build, route.not, RouteBuilder.new, RouteExpr.tree, MatcherTree.toJson,
      Value.toJson, Value.toJsonEntries, RouteExpr.toJson_build sub]
  | .always => rfl
  | .disabled r => RouteExpr.toJson_build r
  | .note r _ => RouteExpr.toJson_build r
  | .workspace r _ => RouteExpr.toJson_build r

theorem RouteExpr.toJson_buildAll : ∀ rs : List (RouteExpr String),
    Value.toJsonElems ((RouteExpr.buildAll rs).map RouteBuilder.matcher) =
      MatcherTree.toJsonAll (RouteExpr.trees rs)
  | [] => rfl
  | r :: rs => by
    simp only [RouteExpr.buildAll, List.map_cons, Value.toJsonElems, RouteExpr.trees,
      MatcherTree.toJsonAll, RouteExpr.toJson_build r, RouteExpr.toJson_buildAll rs]

end

theorem RouteExpr.build_flags {S : Type} : ∀ r : RouteExpr S, r.build.isEnabled = r.enabled ∧
    r.build.noteText = r.noteOf ∧ r.build.workspaceId = r.workspaceOf
  | .disabled r => ⟨rfl, (RouteExpr.build_flags r).2⟩
  | .note r _ => ⟨(RouteExpr.build_flags r).1, rfl, (RouteExpr.build_flags r).2.2⟩
  | .workspace r _ => ⟨(RouteExpr.build_flags r).1, (RouteExpr.build_flags r).2.1, rfl⟩
  | .host _ | .path _ | .fromApp _ _ | .fromBrowser _ | .fromProfile _ | .all _ | .any _ | .not _
  | .always => ⟨rfl, rfl, rfl⟩

/-- The rule that is written. -/
theorem RuleExpr.map_build (r : RuleExpr String) : r.build.map Value.toJson =
    ⟨r.route.tree.toJson, r.terminal.action.toJson, r.route.enabled, r.route.noteOf,
      r.route.workspaceOf⟩ := by
  obtain ⟨henabled, hnote, hworkspace⟩ := r.route.build_flags
  have hmatcher := r.route.toJson_build
  have haction : r.build.action.toJson = r.terminal.action.toJson := by
    unfold RuleExpr.build Terminal.action
    cases r.terminal with
    | toTarget target =>
      have htarget := target.toJson_build
      simp only [RouteBuilder.toTarget, Value.toJson, Value.toJsonEntries, Action.toJson, htarget]
    | keepSource => rfl
    | ask => rfl
    | block => rfl
  have hfields : r.build.when = r.route.build.matcher ∧ r.build.enabled = r.route.build.isEnabled ∧
      r.build.note = r.route.build.noteText ∧
      r.build.workspaceId = r.route.build.workspaceId := by
    unfold RuleExpr.build
    cases r.terminal <;> exact ⟨rfl, rfl, rfl, rfl⟩
  obtain ⟨hwhen, henabled', hnote', hworkspace'⟩ := hfields
  simp only [PendingRule.map, haction, hwhen, henabled', hnote', hworkspace', hmatcher, henabled,
    hnote, hworkspace]

/-- The value of a config stands for its JSON. -/
theorem writes_toJson : (valueWriter (S := String)).Writes jsonWriter Value.toJson where
  null := rfl
  bool _ := rfl
  num _ := rfl
  name _ := rfl
  str _ := rfl
  arr vs := congrArg Json.arr (Value.toJsonElems_eq_map vs)
  obj es := congrArg Json.obj (Value.toJsonEntries_eq_map es)

/-! ## What is read -/

theorem compileRule_build (id : RuleId) (r : RuleExpr String) :
    compileRule jsonWriter id (r.build.map Value.toJson) = (r.rule id).toJson := by
  rw [r.map_build, compileRule, jsonWriter_orNull, jsonWriter_orNull]
  rfl

/-- The rules of a config are written as the rules of the document would be. -/
theorem rules_build (ids : Nat → RuleId) (cfg : ConfigExpr String) :
    ((cfg.build.map Value.toJson).rules.mapIdx fun i r => compileRule jsonWriter (ids i) r) =
      (cfg.document ids).rules.map Rule.toJson := by
  simp only [DslConfig.map, ConfigExpr.build, ConfigExpr.document, mapIdx_map, map_mapIdx,
    compileRule_build]

theorem days_build (s : Option (DslSettings (Option UInt32))) :
    (((s.map (DslSettings.map daysValue)).map (DslSettings.map Value.toJson)).bind
        DslSettings.historyRetentionDays).getD .null =
      .ofOption (fun days => .int days.toNat)
        ((s.bind DslSettings.historyRetentionDays).getD none) := by
  cases s with
  | none => rfl
  | some s =>
    show ((s.historyRetentionDays.map daysValue).map Value.toJson).getD .null =
      .ofOption (fun days => .int days.toNat) (s.historyRetentionDays.getD none)
    cases s.historyRetentionDays with
    | none => rfl
    | some days => cases days <;> rfl

theorem fromJson_settings (s : Option (DslSettings (Option UInt32))) :
    Settings.fromJson (compileSettings jsonWriter
        ((s.map (DslSettings.map daysValue)).map (DslSettings.map Value.toJson))) =
      some (settingsOf s) := by
  rw [fromJson_compileSettings, days_build, Settings.optionU32]
  cases s <;> rfl

theorem fromJson_build (ids : Nat → RuleId) (cfg : ConfigExpr String) :
    ConfigDocument.fromJson (compile valueWriter ids cfg.build).toJson =
      some (cfg.document ids) := by
  have htarget : (cfg.build.map Value.toJson).defaultTarget = cfg.defaultTarget.target.toJson :=
    cfg.defaultTarget.toJson_build
  have hrules : Json.vec Rule.fromJson (.arr ((cfg.document ids).rules.map Rule.toJson)) =
      some (cfg.document ids).rules := Json.vec_map fun r _ => r.fromJson_toJson
  have hsettings : Settings.fromJson
      (compileSettings jsonWriter (cfg.build.map Value.toJson).settings) =
        some (settingsOf cfg.settings) := fromJson_settings cfg.settings
  rw [writes_toJson.compile, fromJson_compile, htarget, BrowserTarget.fromJson_toJson,
    Option.bind_some, rules_build, hrules, Option.bind_some, hsettings]
  rfl

theorem plain_build (ids : Nat → RuleId) (cfg : ConfigExpr String) :
    (compile valueWriter ids cfg.build).toJson.Plain := by
  have htarget : (cfg.build.map Value.toJson).defaultTarget.Plain := by
    show cfg.defaultTarget.build.toJSON.toJson.Plain
    rw [cfg.defaultTarget.toJson_build]
    exact cfg.defaultTarget.target.plain_toJson
  have hrules : (Json.arr ((cfg.document ids).rules.map Rule.toJson)).Plain :=
    plain_arr Rule.plain_toJson _
  rw [← rules_build] at hrules
  have hworkspaces : (Json.arr ((cfg.workspaces.getD []).map
      (compileWorkspace jsonWriter))).Plain :=
    plain_arr (fun w => (compileWorkspace_eq w) ▸ w.toWorkspace.plain_toJson) _
  have hdays : (((cfg.build.map Value.toJson).settings.bind
      DslSettings.historyRetentionDays).getD .null).Plain := by
    have hsame := days_build cfg.settings
    show (((cfg.settings.map (DslSettings.map daysValue)).map (DslSettings.map Value.toJson)).bind
      DslSettings.historyRetentionDays).getD .null |>.Plain
    rw [hsame]
    exact plain_optionU32 _
  have hsettings : (compileSettings jsonWriter (cfg.build.map Value.toJson).settings).Plain :=
    ⟨trivial, trivial, hdays, trivial, trivial, trivial, trivial⟩
  have hversion : (Json.int 1).Plain := by
    show Json.Is64Bit 1
    unfold Json.Is64Bit
    omega
  rw [writes_toJson.compile]
  exact ⟨hversion, htarget, hrules, hworkspaces, trivial, hsettings, trivial, trivial⟩

/-- **What is read** of a config of Unicode texts: its document, unless it is nested too deep. -/
theorem printConfig_read (serde : SerdeJson) (ids : Nat → RuleId) (cfg : ConfigExpr String) :
    serde.fromSlice ConfigDocument.fromJson (printConfig utf16 ids cfg.build) =
      if (compile valueWriter ids cfg.build).toJson.depth ≤ serde.limit then some (cfg.document ids)
      else none := by
  have hbytes : printConfig utf16 ids cfg.build =
      (compile valueWriter ids cfg.build).toJson.toVec := by
    unfold printConfig Json.toVec
    rw [Value.stringify_utf16]
  rw [hbytes, SerdeJson.fromSlice_toVec (plain_build ids cfg), fromJson_build]

end Printed

/-! ## The first match -/

section FirstMatch

variable (urlParse : String → Option Url) (ctx : RoutingContext)

mutual

/-- An expression holds of a context.  An `all` of nothing holds nowhere, as in the router. -/
def RouteExpr.Holds : RouteExpr String → Prop
  | .host pattern => matchHost urlParse pattern ctx.url = true
  | .path pattern => matchPath urlParse pattern ctx.url = true
  | .fromApp name bundleId => SourceAppHolds name bundleId ctx.source
  | .fromBrowser id => ∃ b, ctx.source.browser = some b ∧ eqIgnoreAsciiCase b id = true
  | .fromProfile profileId => ctx.source.profile = some profileId
  | .all subs => subs ≠ [] ∧ RouteExpr.AllHold subs
  | .any subs => RouteExpr.AnyHolds subs
  | .not sub => ¬ sub.Holds
  | .always => True
  | .disabled r => r.Holds
  | .note r _ => r.Holds
  | .workspace r _ => r.Holds

def RouteExpr.AllHold : List (RouteExpr String) → Prop
  | [] => True
  | r :: rs => r.Holds ∧ RouteExpr.AllHold rs

def RouteExpr.AnyHolds : List (RouteExpr String) → Prop
  | [] => False
  | r :: rs => r.Holds ∨ RouteExpr.AnyHolds rs

end

/-- The rule takes part and its expression holds. -/
structure ConfigExpr.Applies (cfg : ConfigExpr String) (r : RuleExpr String) : Prop where
  enabled : r.route.enabled = true
  workspace : ∀ id w, r.route.workspaceOf = some id →
    ((cfg.workspaces.getD []).find? fun w => w.id == id) = some w → w.enabled ≠ some false
  holds : r.route.Holds urlParse ctx

/-- **The meaning of a config**: the first rule that applies decides, else the default target. -/
inductive ConfigExpr.Means (ids : Nat → RuleId) (cfg : ConfigExpr String) : RoutingDecision → Prop
  | off (hoff : cfg.settings.bind DslSettings.smartRoutingEnabled = some false) :
    Means ids cfg (defaultTargetDecision cfg.defaultTarget.target
      "smart routing disabled — default target")
  | rule (hon : cfg.settings.bind DslSettings.smartRoutingEnabled ≠ some false)
    {pre post : List (RuleExpr String)} {r : RuleExpr String}
    (hrules : cfg.rules = pre ++ r :: post) (hr : cfg.Applies urlParse ctx r)
    (hpre : ∀ r' ∈ pre, ¬ cfg.Applies urlParse ctx r') :
    Means ids cfg (decideFromAction r.terminal.action (some (ids pre.length)) r.route.noteOf)
  | fallback (hon : cfg.settings.bind DslSettings.smartRoutingEnabled ≠ some false)
    (hrules : ∀ r ∈ cfg.rules, ¬ cfg.Applies urlParse ctx r) :
    Means ids cfg (defaultTargetDecision cfg.defaultTarget.target
      "default target (no rule matched)")

variable {urlParse ctx}

mutual

theorem RouteExpr.holds_tree_iff : ∀ r : RouteExpr String,
    r.tree.Holds urlParse ctx ↔ r.Holds urlParse ctx
  | .host _ => by simp [RouteExpr.tree, RouteExpr.Holds, MatcherTree.Holds]
  | .path _ => by simp [RouteExpr.tree, RouteExpr.Holds, MatcherTree.Holds]
  | .fromApp _ _ => by simp [RouteExpr.tree, RouteExpr.Holds, MatcherTree.Holds]
  | .fromBrowser _ => by simp [RouteExpr.tree, RouteExpr.Holds, MatcherTree.Holds]
  | .fromProfile _ => by simp [RouteExpr.tree, RouteExpr.Holds, MatcherTree.Holds]
  | .all subs => by
    have hempty : RouteExpr.trees subs = [] ↔ subs = [] := by
      cases subs <;> simp [RouteExpr.trees]
    have hall := RouteExpr.allHold_trees_iff subs
    simp [RouteExpr.tree, RouteExpr.Holds, MatcherTree.Holds, hempty, hall]
  | .any subs => by
    have hany := RouteExpr.anyHolds_trees_iff subs
    simp [RouteExpr.tree, RouteExpr.Holds, MatcherTree.Holds, hany]
  | .not sub => by
    have hsub := RouteExpr.holds_tree_iff sub
    simp [RouteExpr.tree, RouteExpr.Holds, MatcherTree.Holds, hsub]
  | .always => by simp [RouteExpr.tree, RouteExpr.Holds, MatcherTree.Holds]
  | .disabled r => by
    simpa only [RouteExpr.tree, RouteExpr.Holds] using RouteExpr.holds_tree_iff r
  | .note r _ => by
    simpa only [RouteExpr.tree, RouteExpr.Holds] using RouteExpr.holds_tree_iff r
  | .workspace r _ => by
    simpa only [RouteExpr.tree, RouteExpr.Holds] using RouteExpr.holds_tree_iff r

theorem RouteExpr.allHold_trees_iff : ∀ rs : List (RouteExpr String),
    MatcherTree.AllHold urlParse ctx (RouteExpr.trees rs) ↔ RouteExpr.AllHold urlParse ctx rs
  | [] => by simp [RouteExpr.trees, RouteExpr.AllHold, MatcherTree.AllHold]
  | r :: rs => by
    simp [RouteExpr.trees, RouteExpr.AllHold, MatcherTree.AllHold, RouteExpr.holds_tree_iff r,
      RouteExpr.allHold_trees_iff rs]

theorem RouteExpr.anyHolds_trees_iff : ∀ rs : List (RouteExpr String),
    MatcherTree.AnyHolds urlParse ctx (RouteExpr.trees rs) ↔ RouteExpr.AnyHolds urlParse ctx rs
  | [] => by simp [RouteExpr.trees, RouteExpr.AnyHolds, MatcherTree.AnyHolds]
  | r :: rs => by
    simp [RouteExpr.trees, RouteExpr.AnyHolds, MatcherTree.AnyHolds, RouteExpr.holds_tree_iff r,
      RouteExpr.anyHolds_trees_iff rs]

end

variable {ids : Nat → RuleId} {cfg : ConfigExpr String}

/-- A rule fires in the document when its expression applies in the config. -/
theorem fires_rule_iff {id : RuleId} {r : RuleExpr String} :
    Fires urlParse (cfg.document ids) ctx (r.rule id) ↔ cfg.Applies urlParse ctx r := by
  have hfind : ∀ wsId, ((cfg.document ids).workspaces.find? fun w => w.id == wsId) =
      ((cfg.workspaces.getD []).find? fun w => w.id == wsId).map DslWorkspace.toWorkspace := by
    intro wsId
    show ((cfg.workspaces.getD []).map DslWorkspace.toWorkspace).find? _ = _
    rw [List.find?_map]
    rfl
  have hmuted (w : DslWorkspace String) :
      w.toWorkspace.enabled = true ↔ w.enabled ≠ some false := by
    show w.enabled.getD true = true ↔ _
    cases w.enabled with
    | none => simp
    | some b => cases b <;> simp
  constructor
  · intro h
    refine ⟨h.enabled, fun wsId w href hw => ?_, RouteExpr.holds_tree_iff _ |>.mp h.holds⟩
    exact (hmuted w).mp (h.workspace wsId w.toWorkspace href (by rw [hfind, hw]; rfl))
  · intro h
    refine ⟨h.enabled, fun wsId w href hw => ?_, RouteExpr.holds_tree_iff _ |>.mpr h.holds⟩
    rw [hfind] at hw
    obtain ⟨w', hw', rfl⟩ := Option.map_eq_some_iff.mp hw
    exact (hmuted w').mpr (h.workspace wsId w' href hw')

theorem smartRouting_iff : (cfg.document ids).settings.smartRoutingEnabled = true ↔
    cfg.settings.bind DslSettings.smartRoutingEnabled ≠ some false := by
  show (cfg.settings.bind DslSettings.smartRoutingEnabled).getD true = true ↔ _
  cases cfg.settings.bind DslSettings.smartRoutingEnabled with
  | none => simp
  | some b => cases b <;> simp

/-- The document's rule at a position of the list. -/
theorem rules_split {pre post : List (RuleExpr String)} {r : RuleExpr String}
    (h : cfg.rules = pre ++ r :: post) : ∃ post', (cfg.document ids).rules =
      (pre.mapIdx fun i r => r.rule (ids i)) ++ r.rule (ids pre.length) :: post' := by
  refine ⟨post.mapIdx fun i r => r.rule (ids (i + 1 + pre.length)), ?_⟩
  rw [ConfigExpr.document, h, List.mapIdx_append, List.mapIdx_cons, Nat.zero_add]

theorem evaluate_of_means {d : RoutingDecision} (h : cfg.Means urlParse ctx ids d) :
    evaluate urlParse (cfg.document ids) ctx = d := by
  cases h with
  | off hoff =>
    have hsmart : (cfg.document ids).settings.smartRoutingEnabled = false := by
      rw [← Bool.not_eq_true, smartRouting_iff, not_not]
      exact hoff
    exact evaluate_off hsmart
  | @rule hon pre post r hrules hr hpre =>
    obtain ⟨post', hsplit⟩ := @rules_split ids cfg pre post r hrules
    have htop : Topmost (Fires urlParse (cfg.document ids) ctx) (cfg.document ids).rules
        (r.rule (ids pre.length)) := by
      refine ⟨_, post', hsplit, fires_rule_iff.mpr hr, fun r' hr' => ?_⟩
      obtain ⟨i, hi, rfl⟩ := List.mem_mapIdx.mp hr'
      rw [fires_rule_iff]
      exact hpre _ (List.getElem_mem hi)
    exact evaluate_of_firstMatch (smartRouting_iff.mpr hon) (firstMatch_iff.mpr htop)
  | fallback hon hrules =>
    have hnone : firstMatch urlParse (cfg.document ids) ctx = none := by
      unfold firstMatch
      rw [List.find?_eq_none]
      intro r' hr'
      obtain ⟨i, hi, rfl⟩ := List.mem_mapIdx.mp hr'
      rw [fires_iff, fires_rule_iff]
      exact hrules _ (List.getElem_mem hi)
    exact evaluate_of_noMatch (smartRouting_iff.mpr hon) hnone

variable (urlParse ctx ids cfg) in
/-- Every config has a meaning in every context. -/
theorem exists_means : ∃ d, cfg.Means urlParse ctx ids d := by
  by_cases hoff : cfg.settings.bind DslSettings.smartRoutingEnabled = some false
  · exact ⟨_, .off hoff⟩
  · by_cases hrules : ∀ r ∈ cfg.rules, ¬ cfg.Applies urlParse ctx r
    · exact ⟨_, .fallback hoff hrules⟩
    · classical
      cases hfind : cfg.rules.find? fun r => decide (cfg.Applies urlParse ctx r) with
      | none =>
        refine absurd (fun r hr happlies => ?_) hrules
        exact absurd (decide_eq_true happlies) (List.find?_eq_none.mp hfind r hr)
      | some r =>
        obtain ⟨hr, pre, post, heq, hpre⟩ := List.find?_eq_some_iff_append.mp hfind
        refine ⟨_, .rule hoff heq (of_decide_eq_true hr) fun r' hr' happlies => ?_⟩
        have hnot := hpre r' hr'
        simp [happlies] at hnot

/-- **The first match**: the router's decision is what the config means. -/
theorem evaluate_iff_means {d : RoutingDecision} :
    evaluate urlParse (cfg.document ids) ctx = d ↔ cfg.Means urlParse ctx ids d := by
  constructor
  · rintro rfl
    obtain ⟨d, hd⟩ := exists_means urlParse ctx ids cfg
    rw [evaluate_of_means hd]
    exact hd
  · exact evaluate_of_means

end FirstMatch

/-- **What is printed means the same.** The JSON of a config of Unicode texts is accepted; it has
the rules of the config in their order, its workspaces and its settings, and the router takes the
decisions that the config means. -/
theorem printConfig_faithful (serde : SerdeJson) (urlParse : String → Option Url)
    (ids : Nat → RuleId) (cfg : ConfigExpr String)
    (hdepth : (compile valueWriter ids cfg.build).toJson.depth ≤ serde.limit) :
    ∃ doc, serde.fromSlice ConfigDocument.fromJson (printConfig utf16 ids cfg.build) = some doc ∧
      doc.defaultTarget = cfg.defaultTarget.target ∧
      doc.rules = (cfg.rules.mapIdx fun i r => r.rule (ids i)) ∧
      doc.workspaces = (cfg.workspaces.getD []).map DslWorkspace.toWorkspace ∧
      doc.settings = settingsOf cfg.settings ∧
      ∀ ctx d, evaluate urlParse doc ctx = d ↔ cfg.Means urlParse ctx ids d := by
  refine ⟨cfg.document ids, ?_, rfl, rfl, rfl, rfl, fun ctx d => evaluate_iff_means⟩
  rw [printConfig_read, if_pos hdepth]

/-- A rule with a note, nested matchers and a target. -/
def workConfig : ConfigExpr String where
  defaultTarget := .handle "arc"
  rules := [⟨.note (.all [.host "github.com", .not (.fromApp "Slack" none)]) "work",
    .toTarget (.withProfile (.handle "chrome") "Work")⟩]
  workspaces := none
  settings := none

theorem printConfig_faithful_work :
    ∃ doc, defaultSerde.fromSlice ConfigDocument.fromJson
        (printConfig utf16 (fun _ => 1#128) workConfig.build) = some doc ∧
      doc.defaultTarget = .new "arc" ∧ doc.settings = Settings.default := by
  obtain ⟨doc, hread, htarget, -, -, hsettings, -⟩ := printConfig_faithful defaultSerde
    (fun _ => none) (fun _ => 1#128) workConfig (by decide +kernel)
  exact ⟨doc, hread, htarget, hsettings⟩

/-- A host that is half of a surrogate pair. -/
def loneConfig : ConfigExpr JsString where
  defaultTarget := .handle (utf16 "arc")
  rules := [⟨.host [0xD800], .ask⟩]
  workspaces := none
  settings := none

/-- `JSON.stringify` escapes it, and `serde_json` refuses the escape. -/
theorem lone_surrogate_refused :
    defaultSerde.fromSlice ConfigDocument.fromJson
      (printConfig id (fun _ => 1#128) loneConfig.build) = none := by
  have hrefused : Json.tokensOf defaultSerde.finite
      ((compile valueWriter (fun _ => 1#128) loneConfig.build).stringify id) = none := by
    decide +kernel
  unfold printConfig SerdeJson.fromSlice Json.tokens
  rw [Json.fromUtf8_toUtf8, Option.bind_some, hrefused, Option.bind_none]

end LinkPilot.Dsl
