import LinkPilot.Config

/-!
# Edits of the configuration document

What the mutating operations do to a document: the GUI commands of
`apps/desktop/src-tauri/src/commands/mod.rs` (direct edition), the rules page's `commitReorder`,
and the closures that the `lpt` subcommands of `crates/cli/src/main.rs` hand to `mutate_local`.

Every edit works on the body of the document alone (`Edit.apply_withMeta`).
-/

set_option autoImplicit false

namespace LinkPilot

/-! ## Lists -/

/-- Replace the first element with the key of `x`, else push `x`. -/
def upsert {α κ : Type} [DecidableEq κ] (key : α → κ) (x : α) : List α → List α
  | [] => [x]
  | y :: ys => if key y = key x then x :: ys else y :: upsert key x ys

/-- Change the first element with the given key; `none` when there is none. -/
def updateFirst {α κ : Type} [DecidableEq κ] (key : α → κ) (k : κ) (f : α → α) :
    List α → Option (List α)
  | [] => none
  | y :: ys =>
    if key y = k then some (f y :: ys) else (updateFirst key k f ys).map (y :: ·)

/-! ## GUI commands -/

/-- `rule_upsert`. -/
def ruleUpsert (rule : Rule) (doc : ConfigDocument) : ConfigDocument :=
  { doc with rules := upsert Rule.id rule doc.rules }

/-- `rule_delete`. -/
def ruleDelete (id : RuleId) (doc : ConfigDocument) : ConfigDocument :=
  { doc with rules := doc.rules.filter fun r => r.id != id }

/-- `workspace_upsert`. -/
def workspaceUpsert (workspace : Workspace) (doc : ConfigDocument) : ConfigDocument :=
  { doc with workspaces := upsert Workspace.id workspace doc.workspaces }

/-- A rule of the deleted workspace becomes ungrouped. -/
def ungroup (id : String) (rule : Rule) : Rule :=
  if rule.workspaceId = some id then { rule with workspaceId := none } else rule

/-- `workspace_delete`. -/
def workspaceDelete (id : String) (doc : ConfigDocument) : ConfigDocument :=
  { doc with
    workspaces := doc.workspaces.filter fun w => w.id != id
    rules := doc.rules.map (ungroup id) }

/-- `workspace_set_enabled`. -/
def workspaceSetEnabled (id : String) (enabled : Bool) (doc : ConfigDocument) :
    Except String ConfigDocument :=
  match updateFirst Workspace.id id (fun w => { w with enabled := enabled }) doc.workspaces with
  | none => .error ("workspace not found: " ++ id)
  | some workspaces => .ok { doc with workspaces := workspaces }

/-- `set_smart_routing`. -/
def setSmartRouting (enabled : Bool) (doc : ConfigDocument) : ConfigDocument :=
  { doc with settings := { doc.settings with smartRoutingEnabled := enabled } }

/-- `set_launch_at_login`; `autostart` is the outcome of the LaunchAgent step, which comes
first. -/
def setLaunchAtLogin (autostart : Except String Unit) (enabled : Bool) (doc : ConfigDocument) :
    Except String ConfigDocument :=
  match autostart with
  | .error e => .error e
  | .ok () => .ok { doc with settings := { doc.settings with launchAtLogin := enabled } }

/-- `set_language`. -/
def setLanguage (language : LanguagePref) (doc : ConfigDocument) : ConfigDocument :=
  { doc with settings := { doc.settings with language := language } }

/-- `set_picker_style`. -/
def setPickerStyle (style : PickerStyle) (doc : ConfigDocument) : ConfigDocument :=
  { doc with settings := { doc.settings with pickerStyle := style } }

/-- `set_profile_order`: an empty list deletes the entry; duplicates keep their first place. -/
def setProfileOrder (browser : String) (profileIds : List String) (doc : ConfigDocument) :
    ConfigDocument :=
  let orders := doc.settings.profileOrders
  { doc with
    settings := { doc.settings with
      profileOrders :=
        if profileIds.isEmpty then orders.remove browser
        else orders.insert browser profileIds.eraseDups } }

/-- `add_custom_browser`. -/
def addCustomBrowser (browser : InstalledBrowser) (doc : ConfigDocument) : ConfigDocument :=
  { doc with customBrowsers := upsert InstalledBrowser.id browser doc.customBrowsers }

/-- `remove_custom_browser`. -/
def removeCustomBrowser (id : BrowserId) (doc : ConfigDocument) : ConfigDocument :=
  { doc with customBrowsers := doc.customBrowsers.filter fun b => b.id != id }

/-- The list edit shared by `browser_set_enabled` and `lpt browsers enable / disable`. -/
def setDisabled (id : String) (enabled : Bool) (disabled : List String) : List String :=
  if enabled then disabled.filter fun existing => existing != id
  else if disabled.contains id then disabled
  else disabled ++ [id]

/-- `browser_set_enabled`. -/
def browserSetEnabled (id : String) (enabled : Bool) (doc : ConfigDocument) : ConfigDocument :=
  { doc with
    settings := { doc.settings with
      disabledBrowsers := setDisabled id enabled doc.settings.disabledBrowsers } }

/-- A GUI command that reads the store's document, edits it and replaces it. -/
inductive GuiCommand where
  | ruleUpsert (rule : Rule)
  | ruleDelete (id : RuleId)
  | workspaceUpsert (workspace : Workspace)
  | workspaceDelete (id : String)
  | workspaceSetEnabled (id : String) (enabled : Bool)
  | setSmartRouting (enabled : Bool)
  | setLaunchAtLogin (autostart : Except String Unit) (enabled : Bool)
  | setLanguage (language : LanguagePref)
  | setPickerStyle (style : PickerStyle)
  | setProfileOrder (browser : String) (profileIds : List String)
  | addCustomBrowser (browser : InstalledBrowser)
  | removeCustomBrowser (id : BrowserId)
  | browserSetEnabled (id : String) (enabled : Bool)

def GuiCommand.apply (doc : ConfigDocument) : GuiCommand → Except String ConfigDocument
  | .ruleUpsert rule => .ok (LinkPilot.ruleUpsert rule doc)
  | .ruleDelete id => .ok (LinkPilot.ruleDelete id doc)
  | .workspaceUpsert workspace => .ok (LinkPilot.workspaceUpsert workspace doc)
  | .workspaceDelete id => .ok (LinkPilot.workspaceDelete id doc)
  | .workspaceSetEnabled id enabled => LinkPilot.workspaceSetEnabled id enabled doc
  | .setSmartRouting enabled => .ok (LinkPilot.setSmartRouting enabled doc)
  | .setLaunchAtLogin autostart enabled => LinkPilot.setLaunchAtLogin autostart enabled doc
  | .setLanguage language => .ok (LinkPilot.setLanguage language doc)
  | .setPickerStyle style => .ok (LinkPilot.setPickerStyle style doc)
  | .setProfileOrder browser profileIds => .ok (LinkPilot.setProfileOrder browser profileIds doc)
  | .addCustomBrowser browser => .ok (LinkPilot.addCustomBrowser browser doc)
  | .removeCustomBrowser id => .ok (LinkPilot.removeCustomBrowser id doc)
  | .browserSetEnabled id enabled => .ok (LinkPilot.browserSetEnabled id enabled doc)

/-! ## The rules page -/

/-- `byId.get(id)`: of rules that share an id the map keeps the last. -/
def byId (rules : List Rule) (id : RuleId) : Option Rule :=
  rules.reverse.find? fun r => r.id == id

/-- `commitReorder`, on the page's document.  An id the page does not know leaves a hole in the
rule list, which `config_replace` refuses to decode. -/
def commitReorder (orderedIds : List RuleId) (doc : ConfigDocument) :
    Except String ConfigDocument :=
  match orderedIds.mapM (byId doc.rules) with
  | none => .error "invalid args"
  | some next => .ok { doc with rules := next }

/-- `copyRuleToGui`: the rule that it hands to `rule_upsert`; `id` is fresh, and `t` makes a note
from the one there is. -/
def copyRuleToGui (t : Option String → String) (id : RuleId) (rule : Rule) : Option Rule :=
  if rule.source ≠ .tsCompiled then none
  else some { rule with id := id, source := .gui, note := some (t rule.note) }

/-! ## `lpt` subcommands -/

def hexDigits (n count : Nat) : List Char :=
  (List.range count).map fun i => Nat.digitChar (n / 16 ^ (count - 1 - i) % 16)

/-- `Uuid::to_string`: lowercase hexadecimal, grouped 8-4-4-4-12. -/
def uuidChars (id : Uuid) : List Char :=
  let hex := hexDigits id.toNat 32
  hex.take 8 ++ '-' :: (hex.drop 8).take 4 ++ '-' :: (hex.drop 12).take 4 ++
    '-' :: (hex.drop 16).take 4 ++ '-' :: hex.drop 20

/-- `find_rule`. -/
def findRule (doc : ConfigDocument) (idPrefix : String) : Except String Rule :=
  match doc.rules.filter fun r => idPrefix.toList.isPrefixOf (uuidChars r.id) with
  | [] => .error ("no rule matches id prefix '" ++ idPrefix ++ "'")
  | [r] => .ok r
  | many =>
    .error ("id prefix '" ++ idPrefix ++ "' is ambiguous — matches " ++
      Nat.repr many.length ++ " rules")

/-- `run_rules_add`, for the rule it has built. -/
def rulesAdd (rule : Rule) (doc : ConfigDocument) : ConfigDocument :=
  { doc with rules := doc.rules ++ [rule] }

/-- `run_rules_delete`. -/
def rulesDelete (idPrefix : String) (doc : ConfigDocument) : Except String ConfigDocument :=
  match findRule doc idPrefix with
  | .error e => .error e
  | .ok rule => .ok { doc with rules := doc.rules.filter fun r => r.id != rule.id }

/-- `run_rules_set_enabled`. -/
def rulesSetEnabled (idPrefix : String) (enabled : Bool) (doc : ConfigDocument) :
    Except String ConfigDocument :=
  match findRule doc idPrefix with
  | .error e => .error e
  | .ok rule =>
    match updateFirst Rule.id rule.id (fun r => { r with enabled := enabled }) doc.rules with
    | none => .error "unwrap on None"
    | some rules => .ok { doc with rules := rules }

inductive MovePosition where
  | top
  | up
  | down
  | bottom
  deriving DecidableEq, Repr

/-- The `target` index of `run_rules_move`. -/
def MovePosition.target (pos : MovePosition) (idx len : Nat) : Nat :=
  match pos with
  | .top => 0
  | .up => idx - 1
  | .down => min (idx + 1) (len - 1)
  | .bottom => len - 1

/-- `rules.remove(idx)` then `rules.insert(target, rule)`. -/
def moveTo (rules : List Rule) (rule : Rule) (idx target : Nat) : List Rule :=
  if target ≠ idx then (rules.eraseIdx idx).insertIdx target rule else rules

/-- `run_rules_move`. -/
def rulesMove (idPrefix : String) (pos : MovePosition) (doc : ConfigDocument) :
    Except String ConfigDocument :=
  match findRule doc idPrefix with
  | .error e => .error e
  | .ok found =>
    let idx := doc.rules.findIdx fun r => r.id == found.id
    match doc.rules[idx]? with
    | none => .error "unwrap on None"
    | some rule =>
      .ok { doc with rules := moveTo doc.rules rule idx (pos.target idx doc.rules.length) }

/-- `run_workspaces_add`. -/
def workspacesAdd (workspace : Workspace) (doc : ConfigDocument) : ConfigDocument :=
  { doc with workspaces := upsert Workspace.id workspace doc.workspaces }

/-- `run_workspaces_delete`. -/
def workspacesDelete (id : String) (doc : ConfigDocument) : Except String ConfigDocument :=
  let workspaces := doc.workspaces.filter fun w => w.id != id
  if workspaces.length = doc.workspaces.length then .error ("workspace not found: " ++ id)
  else .ok { doc with workspaces := workspaces, rules := doc.rules.map (ungroup id) }

/-- `run_workspaces_set_enabled`. -/
def workspacesSetEnabled (id : String) (enabled : Bool) (doc : ConfigDocument) :
    Except String ConfigDocument :=
  match updateFirst Workspace.id id (fun w => { w with enabled := enabled }) doc.workspaces with
  | none => .error ("workspace not found: " ++ id)
  | some workspaces => .ok { doc with workspaces := workspaces }

/-- `run_config_set_default_target`. -/
def configSetDefaultTarget (browser : String) (profile : Option String)
    (incognito newWindow : Bool) (doc : ConfigDocument) : ConfigDocument :=
  let target := BrowserTarget.new browser
  let target := match profile with
    | some p => target.withProfile p
    | none => target
  { doc with defaultTarget := { target with incognito := incognito, newWindow := newWindow } }

/-- `run_settings_set`. -/
def settingsSet (mutator : Settings → Settings) (doc : ConfigDocument) : ConfigDocument :=
  { doc with settings := mutator doc.settings }

/-- `run_browsers_custom_add`. -/
def browsersCustomAdd (id : String) (name : String) (kind : BrowserKind) (exec : String)
    (bundleId : Option String) (doc : ConfigDocument) : ConfigDocument :=
  let browser : InstalledBrowser := ⟨id, name, kind, exec, bundleId, none⟩
  { doc with customBrowsers := upsert InstalledBrowser.id browser doc.customBrowsers }

/-- `run_browsers_custom_remove`. -/
def browsersCustomRemove (id : String) (doc : ConfigDocument) : Except String ConfigDocument :=
  let customBrowsers := doc.customBrowsers.filter fun b => b.id != id
  if customBrowsers.length = doc.customBrowsers.length then
    .error ("custom browser not found: " ++ id)
  else .ok { doc with customBrowsers := customBrowsers }

/-- `run_browsers_set_enabled`. -/
def browsersSetEnabled (id : String) (enabled : Bool) (doc : ConfigDocument) : ConfigDocument :=
  { doc with
    settings := { doc.settings with
      disabledBrowsers := setDisabled id enabled doc.settings.disabledBrowsers } }

/-- A closure that an `lpt` subcommand hands to `mutate_local`. -/
inductive LptCommand where
  | rulesAdd (rule : Rule)
  | rulesDelete (idPrefix : String)
  | rulesSetEnabled (idPrefix : String) (enabled : Bool)
  | rulesMove (idPrefix : String) (pos : MovePosition)
  | workspacesAdd (workspace : Workspace)
  | workspacesDelete (id : String)
  | workspacesSetEnabled (id : String) (enabled : Bool)
  | configSetDefaultTarget (browser : String) (profile : Option String)
      (incognito newWindow : Bool)
  | settingsSet (mutator : Settings → Settings)
  | browsersCustomAdd (id : String) (name : String) (kind : BrowserKind) (exec : String)
      (bundleId : Option String)
  | browsersCustomRemove (id : String)
  | browsersSetEnabled (id : String) (enabled : Bool)

def LptCommand.apply (doc : ConfigDocument) : LptCommand → Except String ConfigDocument
  | .rulesAdd rule => .ok (LinkPilot.rulesAdd rule doc)
  | .rulesDelete idPrefix => LinkPilot.rulesDelete idPrefix doc
  | .rulesSetEnabled idPrefix enabled => LinkPilot.rulesSetEnabled idPrefix enabled doc
  | .rulesMove idPrefix pos => LinkPilot.rulesMove idPrefix pos doc
  | .workspacesAdd workspace => .ok (LinkPilot.workspacesAdd workspace doc)
  | .workspacesDelete id => LinkPilot.workspacesDelete id doc
  | .workspacesSetEnabled id enabled => LinkPilot.workspacesSetEnabled id enabled doc
  | .configSetDefaultTarget browser profile incognito newWindow =>
    .ok (LinkPilot.configSetDefaultTarget browser profile incognito newWindow doc)
  | .settingsSet mutator => .ok (LinkPilot.settingsSet mutator doc)
  | .browsersCustomAdd id name kind exec bundleId =>
    .ok (LinkPilot.browsersCustomAdd id name kind exec bundleId doc)
  | .browsersCustomRemove id => LinkPilot.browsersCustomRemove id doc
  | .browsersSetEnabled id enabled => .ok (LinkPilot.browsersSetEnabled id enabled doc)

/-! ## All of them -/

/-- A mutating operation: of the desktop process (a command, or the page's drag-reorder), or of
an `lpt` process. -/
inductive Edit where
  | gui (command : GuiCommand)
  | reorder (orderedIds : List RuleId)
  | lpt (command : LptCommand)

def Edit.apply (doc : ConfigDocument) : Edit → Except String ConfigDocument
  | .gui command => command.apply doc
  | .reorder orderedIds => commitReorder orderedIds doc
  | .lpt command => command.apply doc

theorem GuiCommand.apply_withMeta (c : GuiCommand) (d : ConfigDocument) (m : Meta) :
    c.apply (d.withMeta m) = (c.apply d).map fun e => e.withMeta m := by
  cases c with
  | workspaceSetEnabled id enabled =>
    simp only [apply, LinkPilot.workspaceSetEnabled, ConfigDocument.withMeta]
    split <;> rfl
  | setLaunchAtLogin autostart enabled =>
    cases autostart <;> rfl
  | _ => rfl

theorem findRule_withMeta (d : ConfigDocument) (m : Meta) (idPrefix : String) :
    findRule (d.withMeta m) idPrefix = findRule d idPrefix := rfl

theorem LptCommand.apply_withMeta (c : LptCommand) (d : ConfigDocument) (m : Meta) :
    c.apply (d.withMeta m) = (c.apply d).map fun e => e.withMeta m := by
  cases c with
  | rulesDelete idPrefix =>
    simp only [apply, LinkPilot.rulesDelete, findRule_withMeta]
    cases findRule d idPrefix <;> rfl
  | rulesSetEnabled idPrefix enabled =>
    simp only [apply, LinkPilot.rulesSetEnabled, findRule_withMeta]
    cases findRule d idPrefix with
    | error e => rfl
    | ok rule =>
      simp only [ConfigDocument.withMeta]
      split <;> rfl
  | rulesMove idPrefix pos =>
    simp only [apply, LinkPilot.rulesMove, findRule_withMeta]
    cases findRule d idPrefix with
    | error e => rfl
    | ok rule =>
      simp only [ConfigDocument.withMeta]
      split <;> rfl
  | workspacesDelete id =>
    simp only [apply, LinkPilot.workspacesDelete, apply_ite (Except.map _)]
    rfl
  | workspacesSetEnabled id enabled =>
    simp only [apply, LinkPilot.workspacesSetEnabled, ConfigDocument.withMeta]
    split <;> rfl
  | browsersCustomRemove id =>
    simp only [apply, LinkPilot.browsersCustomRemove, apply_ite (Except.map _)]
    rfl
  | _ => rfl

/-- **Edits are blind to `meta`**, and leave it alone. -/
theorem Edit.apply_withMeta (e : Edit) (d : ConfigDocument) (m : Meta) :
    e.apply (d.withMeta m) = (e.apply d).map fun e => e.withMeta m := by
  cases e with
  | gui c => exact c.apply_withMeta d m
  | lpt c => exact c.apply_withMeta d m
  | reorder ids =>
    simp only [apply, commitReorder, ConfigDocument.withMeta]
    split <;> rfl

end LinkPilot
