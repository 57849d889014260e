import LinkPilot.Globs
import LinkPilot.LostUpdates
import LinkPilot.RulesPage
import LinkPilot.Signals

/-!
# What every document keeps

Rules, workspaces and custom browsers are found by their ids, browsers are switched off once, and a
saved profile order is no empty or repeating list.  No edit of the desktop process or of `lpt`
breaks this, whatever snapshot it works on and however its writing ends; so no interleaving of
processes does, as long as the documents that are put in place as a whole have it too.  As in
`LostUpdates`, a document is read at once and put in place at once.

`lpt settings` is modelled here with the words it reads.

Principal results:

* `documents_kept` — in every interleaving of edits and replacements, lost updates, failed writes
  and all, the file, the memory, the page and every snapshot have unique ids.
* `groups_kept` — and where the edits name workspaces of the document that they edit, no rule refers
  to a workspace that is not there.
-/

set_option autoImplicit false

namespace LinkPilot.Integrity

open Interleaving
open LostUpdates (World Phase Start)
open RulesPage (dropOrder)

/-! ## `lpt settings` -/

/-- `OnOff::from_str`, and `as_bool`. -/
def onOff (s : String) : Except String Bool :=
  let value := toAsciiLowercase s
  if value ∈ ["on", "true", "yes", "1"] then .ok true
  else if value ∈ ["off", "false", "no", "0"] then .ok false
  else .error ("expected on/off, got " ++ value)

/-- `SettingsAction`, but for `Show`. -/
inductive SettingsAction where
  | smartRouting (value : String)
  | launchAtLogin (value : String)
  | autoUpdates (value : String)
  | recordQueryStrings (value : String)
  | historyRetention (value : String)
  | pickerStyle (value : String)
  | askQuickOpen (value : String)
  | language (value : String)

/-- The days of `HistoryRetention`. -/
def retentionDays (value : String) : Except String (Option UInt32) :=
  if eqIgnoreAsciiCase value "clear" = true ∨ value = "0" then .ok none
  else
    match Signals.parseU32 value.toList with
    | none => .error ("parsing days '" ++ value ++ "'")
    | some days => .ok (some (UInt32.ofNat days))

def pickerStyleOf (value : String) : Except String PickerStyle :=
  match toAsciiLowercase value with
  | "frosted" => .ok .frosted
  | "bezel" => .ok .bezel
  | "crown" => .ok .crown
  | other => .error ("unknown picker style '" ++ other ++ "' (expected frosted | bezel | crown)")

def modifierOf (value : String) : Except String AskQuickOpenModifier :=
  match toAsciiLowercase value with
  | "off" => .ok .off
  | "command" => .ok .command
  | "option" => .ok .option
  | "control" => .ok .control
  | "shift" => .ok .shift
  | other =>
    .error ("unknown Ask quick-open modifier '" ++ other ++
      "' (expected command | option | control | shift | off)")

def languageOf (value : String) : Except String LanguagePref :=
  if value = "system" then .ok .system
  else if value ∈ ["en", "en-US", "en-us"] then .ok .en
  else if value ∈ ["zh-CN", "zh-cn"] then .ok .zhCn
  else if value ∈ ["zh-TW", "zh-tw"] then .ok .zhTw
  else if value ∈ ["ja-JP", "ja-jp", "ja"] then .ok .jaJp
  else
    .error ("unknown language '" ++ value ++ "' (expected system | en | zh-CN | zh-TW | ja-JP)")

/-- The mutator that goes to `run_settings_set`. -/
def SettingsAction.mutator : SettingsAction → Except String (Settings → Settings)
  | .smartRouting value => (onOff value).map fun on s => { s with smartRoutingEnabled := on }
  | .launchAtLogin value => (onOff value).map fun on s => { s with launchAtLogin := on }
  | .autoUpdates value => (onOff value).map fun on s => { s with autoCheckUpdates := on }
  | .recordQueryStrings value => (onOff value).map fun on s => { s with recordQueryStrings := on }
  | .historyRetention value =>
    (retentionDays value).map fun days s => { s with historyRetentionDays := days }
  | .pickerStyle value => (pickerStyleOf value).map fun style s => { s with pickerStyle := style }
  | .askQuickOpen value =>
    (modifierOf value).map fun modifier s => { s with askQuickOpenModifier := modifier }
  | .language value => (languageOf value).map fun language s => { s with language := language }

/-- No setting of `lpt settings` holds names of browsers or profiles. -/
theorem mutator_lists {a : SettingsAction} {f : Settings → Settings} (h : a.mutator = .ok f)
    (s : Settings) :
    (f s).disabledBrowsers = s.disabledBrowsers ∧ (f s).profileOrders = s.profileOrders := by
  have hmap : ∀ {α : Type} {x : Except String α} {g : α → Settings → Settings}, x.map g = .ok f →
      ∃ v, f = g v := by
    intro α x g hx
    cases x with
    | error e => cases hx
    | ok v => exact ⟨v, (Except.ok.inj hx).symm⟩
  cases a with
  | smartRouting | launchAtLogin | autoUpdates | recordQueryStrings | historyRetention | pickerStyle
  | askQuickOpen | language =>
    obtain ⟨v, rfl⟩ := hmap h
    exact ⟨rfl, rfl⟩

/-! ## Lists with keys -/

section Lists

variable {α κ : Type} [DecidableEq κ] {key : α → κ} {x : α} {l l' : List α}

theorem map_upsert : (upsert key x l).map key =
    if key x ∈ l.map key then l.map key else l.map key ++ [key x] := by
  induction l with
  | nil => simp [upsert]
  | cons y l ih =>
    unfold upsert
    by_cases hy : key y = key x
    · simp [hy]
    · rw [if_neg hy, List.map_cons, ih, List.map_cons]
      have hne : key x ≠ key y := Ne.symm hy
      by_cases hmem : key x ∈ l.map key
      · rw [if_pos hmem, if_pos (List.mem_cons_of_mem _ hmem)]
      · rw [if_neg hmem, if_neg (List.not_mem_cons_of_ne_of_not_mem hne hmem)]
        rfl

theorem nodup_upsert (h : (l.map key).Nodup) : ((upsert key x l).map key).Nodup := by
  rw [map_upsert]
  split
  · exact h
  · rename_i hfresh
    rw [← List.concat_eq_append]
    exact h.concat hfresh

theorem map_updateFirst {k : κ} {f : α → α} (h : updateFirst key k f l = some l')
    (hf : ∀ y, key (f y) = key y) : l'.map key = l.map key := by
  induction l generalizing l' with
  | nil => cases h
  | cons y l ih =>
    unfold updateFirst at h
    split at h
    · cases h
      rw [List.map_cons, List.map_cons, hf]
    · obtain ⟨rest, hrest, rfl⟩ := Option.map_eq_some_iff.mp h
      rw [List.map_cons, List.map_cons, ih hrest]

theorem mem_upsert {y : α} (h : y ∈ upsert key x l) : y = x ∨ y ∈ l := by
  induction l with
  | nil => simpa [upsert] using h
  | cons z l ih =>
    unfold upsert at h
    split at h
    · rcases List.mem_cons.mp h with rfl | hl
      · exact .inl rfl
      · exact .inr (List.mem_cons_of_mem z hl)
    · rcases List.mem_cons.mp h with rfl | hl
      · exact .inr List.mem_cons_self
      · exact (ih hl).imp_right (List.mem_cons_of_mem z)

theorem mem_updateFirst {k : κ} {f : α → α} {y : α} (h : updateFirst key k f l = some l')
    (hy : y ∈ l') : y ∈ l ∨ ∃ z ∈ l, y = f z := by
  induction l generalizing l' with
  | nil => cases h
  | cons z l ih =>
    unfold updateFirst at h
    split at h
    · cases h
      rcases List.mem_cons.mp hy with rfl | hl
      · exact .inr ⟨z, List.mem_cons_self, rfl⟩
      · exact .inl (List.mem_cons_of_mem z hl)
    · obtain ⟨rest, hrest, rfl⟩ := Option.map_eq_some_iff.mp h
      rcases List.mem_cons.mp hy with rfl | hl
      · exact .inl List.mem_cons_self
      · rcases ih hrest hl with hold | ⟨q, hq, rfl⟩
        · exact .inl (List.mem_cons_of_mem z hold)
        · exact .inr ⟨q, List.mem_cons_of_mem z hq, rfl⟩

omit [DecidableEq κ] in
theorem nodup_filter {p : α → Bool} (h : (l.map key).Nodup) : ((l.filter p).map key).Nodup :=
  h.sublist (List.filter_sublist.map key)

theorem nodup_setDisabled {id : String} {enabled : Bool} {disabled : List String}
    (h : disabled.Nodup) : (setDisabled id enabled disabled).Nodup := by
  unfold setDisabled
  split
  · exact h.filter _
  · split
    · exact h
    · rename_i hnew
      rw [← List.concat_eq_append]
      exact h.concat (by simpa using hnew)

theorem nodup_eraseDups (ids : List String) : ids.eraseDups.Nodup := by
  induction hn : ids.length using Nat.strongRecOn generalizing ids with
  | ind n ih =>
    cases ids with
    | nil => simp
    | cons id ids =>
      rw [List.eraseDups_cons, List.nodup_cons]
      constructor
      · simp [List.mem_eraseDups]
      · have hlen := List.length_filter_le (fun id' => !id' == id) ids
        rw [List.length_cons] at hn
        exact ih _ (by omega) _ rfl

end Lists

/-! ## What a document keeps -/

/-- Ids are unique, and no list of names repeats itself. -/
structure Kept (doc : ConfigDocument) : Prop where
  rules : (doc.rules.map Rule.id).Nodup
  workspaces : (doc.workspaces.map Workspace.id).Nodup
  customBrowsers : (doc.customBrowsers.map InstalledBrowser.id).Nodup
  disabledBrowsers : doc.settings.disabledBrowsers.Nodup
  profileOrders : ∀ e ∈ doc.settings.profileOrders.entries, e.2 ≠ [] ∧ e.2.Nodup

/-- Every rule is in a workspace of the document, or in none. -/
def Grouped (doc : ConfigDocument) : Prop :=
  ∀ r ∈ doc.rules, ∀ ws, r.workspaceId = some ws → ws ∈ doc.workspaces.map Workspace.id

/-- The workspace of a rule that is put into the document is one of its own. -/
def Placed (doc : ConfigDocument) (r : Rule) : Prop :=
  ∀ ws, r.workspaceId = some ws → ws ∈ doc.workspaces.map Workspace.id

/-- What the callers see to: a new id where a rule is added, a drop of the rules page behind a
reorder, and a mutator of `lpt settings`. -/
def Proper (doc : ConfigDocument) : Edit → Prop
  | .reorder orderedIds => ∃ (source target : RuleId) (after : Bool),
    dropOrder (doc.rules.map Rule.id) source target after = some orderedIds
  | .lpt (.rulesAdd rule) => rule.id ∉ doc.rules.map Rule.id
  | .lpt (.settingsSet mutator) => ∃ a : SettingsAction, a.mutator = .ok mutator
  | _ => True

/-- No edit puts a rule into a workspace that is not there. -/
def Places (doc : ConfigDocument) : Edit → Prop
  | .gui (.ruleUpsert rule) => Placed doc rule
  | .lpt (.rulesAdd rule) => Placed doc rule
  | _ => True

section Edits

variable {doc doc' : ConfigDocument}

theorem nodup_dropOrder {ids out : List RuleId} {source target : RuleId} {after : Bool}
    (hids : ids.Nodup) (h : dropOrder ids source target after = some out) : out.Nodup := by
  unfold dropOrder at h
  split at h
  · rename_i hsource
    have hrest : (ids.eraseIdx (ids.idxOf source)).Nodup := hids.eraseIdx _
    have hgone : source ∉ ids.eraseIdx (ids.idxOf source) := by
      rw [← List.erase_eq_eraseIdx_of_idxOf rfl]
      exact hids.not_mem_erase
    cases h
    generalize (if after then _ else _) = k
    rcases Nat.lt_or_ge (ids.eraseIdx (ids.idxOf source)).length k with hout | hin
    · rwa [List.insertIdx_of_length_lt hout]
    · rw [(List.perm_insertIdx source _ hin).nodup_iff]
      exact List.nodup_cons.mpr ⟨hgone, hrest⟩
  · cases h

theorem map_of_mapM {rules rs : List Rule} {ids : List RuleId}
    (h : ids.mapM (byId rules) = some rs) : rs.map Rule.id = ids ∧ ∀ r ∈ rs, r ∈ rules := by
  induction ids generalizing rs with
  | nil =>
    cases h
    exact ⟨rfl, fun r hr => absurd hr List.not_mem_nil⟩
  | cons id ids ih =>
    simp only [List.mapM_cons, Option.bind_eq_bind, Option.bind_eq_some_iff] at h
    obtain ⟨r, hr, rest, hrest, heq⟩ := h
    cases heq
    obtain ⟨hids, hmem⟩ := ih hrest
    have hid : r.id = id := by simpa using List.find?_some hr
    refine ⟨by rw [List.map_cons, hid, hids], List.forall_mem_cons.mpr ⟨?_, hmem⟩⟩
    exact List.mem_reverse.mp (List.mem_of_find?_eq_some hr)

theorem of_commitReorder {orderedIds : List RuleId} (h : commitReorder orderedIds doc = .ok doc') :
    doc' = { doc with rules := doc'.rules } ∧ doc'.rules.map Rule.id = orderedIds ∧
      ∀ r ∈ doc'.rules, r ∈ doc.rules := by
  unfold commitReorder at h
  split at h
  · cases h
  · rename_i next hnext
    cases h
    exact ⟨rfl, map_of_mapM hnext⟩

theorem map_ungroup (id : String) (rules : List Rule) :
    (rules.map (ungroup id)).map Rule.id = rules.map Rule.id := by
  rw [List.map_map]
  refine List.map_congr_left fun r _ => ?_
  show (ungroup id r).id = r.id
  unfold ungroup
  split <;> rfl

theorem kept_orders {browser : String} {ids : List String} (h : Kept doc) :
    ∀ e ∈ (setProfileOrder browser ids doc).settings.profileOrders.entries, e.2 ≠ [] ∧ e.2.Nodup := by
  intro e he
  simp only [setProfileOrder] at he
  split at he
  · exact h.profileOrders e (List.mem_filter.mp he).1
  · rename_i hne
    have hids : ids ≠ [] := fun heq => hne (by simp [heq])
    simp only [ProfileOrders.insert, ProfileOrders.insertEntries, List.mem_append, List.mem_cons,
      List.mem_filter] at he
    rcases he with ⟨hold, -⟩ | rfl | ⟨hold, -⟩
    · exact h.profileOrders e hold
    · obtain ⟨id, rest, rfl⟩ := List.exists_cons_of_ne_nil hids
      refine ⟨?_, nodup_eraseDups _⟩
      rw [List.eraseDups_cons]
      exact List.cons_ne_nil _ _
    · exact h.profileOrders e hold

theorem kept_workspaceDelete {id : String} (h : Kept doc) : Kept (workspaceDelete id doc) :=
  { h with
    rules := by
      show ((doc.rules.map (ungroup id)).map Rule.id).Nodup
      rw [map_ungroup]
      exact h.rules
    workspaces := nodup_filter h.workspaces }

theorem kept_workspaceSetEnabled {id : String} {enabled : Bool} (h : Kept doc)
    (hok : workspaceSetEnabled id enabled doc = .ok doc') : Kept doc' := by
  unfold workspaceSetEnabled at hok
  split at hok
  · cases hok
  · rename_i workspaces hupdate
    cases hok
    refine { h with workspaces := ?_ }
    show (workspaces.map Workspace.id).Nodup
    rw [map_updateFirst hupdate fun _ => rfl]
    exact h.workspaces

theorem kept_gui {c : GuiCommand} (h : Kept doc) (hok : c.apply doc = .ok doc') : Kept doc' := by
  cases c with
  | ruleUpsert rule =>
    cases hok
    exact { h with rules := nodup_upsert h.rules }
  | ruleDelete id =>
    cases hok
    exact { h with rules := nodup_filter h.rules }
  | workspaceUpsert workspace =>
    cases hok
    exact { h with workspaces := nodup_upsert h.workspaces }
  | workspaceDelete id =>
    cases hok
    exact kept_workspaceDelete h
  | workspaceSetEnabled id enabled => exact kept_workspaceSetEnabled h hok
  | setLaunchAtLogin autostart enabled =>
    simp only [GuiCommand.apply, setLaunchAtLogin] at hok
    split at hok
    · cases hok
    · cases hok
      exact { h with }
  | setProfileOrder browser profileIds =>
    cases hok
    exact { h with profileOrders := kept_orders h }
  | addCustomBrowser browser =>
    cases hok
    exact { h with customBrowsers := nodup_upsert h.customBrowsers }
  | removeCustomBrowser id =>
    cases hok
    exact { h with customBrowsers := nodup_filter h.customBrowsers }
  | browserSetEnabled id enabled =>
    cases hok
    exact { h with disabledBrowsers := nodup_setDisabled h.disabledBrowsers }
  | setSmartRouting | setLanguage | setPickerStyle =>
    cases hok
    exact { h with }

theorem kept_lpt {c : LptCommand} (h : Kept doc) (hproper : Proper doc (.lpt c))
    (hok : c.apply doc = .ok doc') : Kept doc' := by
  cases c with
  | rulesAdd rule =>
    cases hok
    refine { h with rules := ?_ }
    show ((doc.rules ++ [rule]).map Rule.id).Nodup
    rw [List.map_append, List.map_singleton, ← List.concat_eq_append]
    exact h.rules.concat hproper
  | rulesDelete idPrefix =>
    simp only [LptCommand.apply, rulesDelete] at hok
    split at hok
    · cases hok
    · cases hok
      exact { h with rules := nodup_filter h.rules }
  | rulesSetEnabled idPrefix enabled =>
    simp only [LptCommand.apply, rulesSetEnabled] at hok
    split at hok
    · cases hok
    · split at hok
      · cases hok
      · rename_i rules hupdate
        cases hok
        refine { h with rules := ?_ }
        show (rules.map Rule.id).Nodup
        rw [map_updateFirst hupdate fun _ => rfl]
        exact h.rules
  | rulesMove idPrefix pos =>
    obtain ⟨hframe, x, i, hmoved⟩ := moved_of_rulesMove hok
    rw [hframe]
    exact { h with rules := (hmoved.perm.map Rule.id).nodup_iff.mpr h.rules }
  | workspacesAdd workspace =>
    cases hok
    exact { h with workspaces := nodup_upsert h.workspaces }
  | workspacesDelete id =>
    simp only [LptCommand.apply, workspacesDelete] at hok
    split at hok
    · cases hok
    · cases hok
      exact kept_workspaceDelete h
  | workspacesSetEnabled id enabled => exact kept_workspaceSetEnabled h hok
  | settingsSet mutator =>
    obtain ⟨a, ha⟩ := hproper
    cases hok
    obtain ⟨hdisabled, horders⟩ := mutator_lists ha doc.settings
    refine { h with disabledBrowsers := ?_, profileOrders := ?_ }
    · show (mutator doc.settings).disabledBrowsers.Nodup
      rw [hdisabled]
      exact h.disabledBrowsers
    · show ∀ e ∈ (mutator doc.settings).profileOrders.entries, _
      rw [horders]
      exact h.profileOrders
  | browsersCustomAdd id name kind exec bundleId =>
    cases hok
    exact { h with customBrowsers := nodup_upsert h.customBrowsers }
  | browsersCustomRemove id =>
    simp only [LptCommand.apply, browsersCustomRemove] at hok
    split at hok
    · cases hok
    · cases hok
      exact { h with customBrowsers := nodup_filter h.customBrowsers }
  | browsersSetEnabled id enabled =>
    cases hok
    exact { h with disabledBrowsers := nodup_setDisabled h.disabledBrowsers }
  | configSetDefaultTarget =>
    cases hok
    exact { h with }

/-- **An edit** of a kept document. -/
theorem kept_apply {e : Edit} (h : Kept doc) (hproper : Proper doc e) (hok : e.apply doc = .ok doc') :
    Kept doc' := by
  cases e with
  | gui c => exact kept_gui h hok
  | lpt c => exact kept_lpt h hproper hok
  | reorder orderedIds =>
    obtain ⟨source, target, after, hdrop⟩ := hproper
    obtain ⟨hframe, hids, -⟩ := of_commitReorder hok
    rw [hframe]
    refine { h with rules := ?_ }
    show (doc'.rules.map Rule.id).Nodup
    rw [hids]
    exact nodup_dropOrder h.rules hdrop

/-! ### The workspaces of the rules -/

/-- Other workspaces, with the old ones among them. -/
theorem Grouped.of_workspaces {workspaces : List Workspace} (h : Grouped doc)
    (hsub : ∀ ws ∈ doc.workspaces.map Workspace.id, ws ∈ workspaces.map Workspace.id) :
    Grouped { doc with workspaces := workspaces } :=
  fun r hr ws hws => hsub ws (h r hr ws hws)

theorem grouped_upsertWorkspace {w : Workspace} (h : Grouped doc) :
    Grouped { doc with workspaces := upsert Workspace.id w doc.workspaces } := by
  refine h.of_workspaces fun ws hws => ?_
  rw [map_upsert]
  split
  · exact hws
  · exact List.mem_append_left _ hws

theorem grouped_workspaceDelete {id : String} (h : Grouped doc) :
    Grouped (workspaceDelete id doc) := by
  intro r hr ws hws
  obtain ⟨q, hq, rfl⟩ := List.mem_map.mp hr
  have hne : ws ≠ id := by
    rintro rfl
    exact ungroup_workspaceId ws q hws
  have hold : q.workspaceId = some ws := by
    unfold ungroup at hws
    split at hws
    · cases hws
    · exact hws
  obtain ⟨w, hw, rfl⟩ := List.mem_map.mp (h q hq ws hold)
  exact List.mem_map_of_mem (List.mem_filter.mpr ⟨hw, by simpa using hne⟩)

theorem grouped_workspaceSetEnabled {id : String} {enabled : Bool} (h : Grouped doc)
    (hok : workspaceSetEnabled id enabled doc = .ok doc') : Grouped doc' := by
  unfold workspaceSetEnabled at hok
  split at hok
  · cases hok
  · rename_i workspaces hupdate
    cases hok
    refine h.of_workspaces fun ws hws => ?_
    rwa [map_updateFirst hupdate fun _ => rfl]

theorem grouped_gui {c : GuiCommand} (h : Grouped doc) (hplaces : Places doc (.gui c))
    (hok : c.apply doc = .ok doc') : Grouped doc' := by
  cases c with
  | ruleUpsert rule =>
    cases hok
    intro r hr
    rcases mem_upsert hr with rfl | hold
    · exact hplaces
    · exact h r hold
  | ruleDelete id =>
    cases hok
    exact fun r hr => h r (List.mem_of_mem_filter hr)
  | workspaceUpsert workspace =>
    cases hok
    exact grouped_upsertWorkspace h
  | workspaceDelete id =>
    cases hok
    exact grouped_workspaceDelete h
  | workspaceSetEnabled id enabled => exact grouped_workspaceSetEnabled h hok
  | setLaunchAtLogin autostart enabled =>
    simp only [GuiCommand.apply, setLaunchAtLogin] at hok
    split at hok
    · cases hok
    · cases hok
      exact h
  | setSmartRouting | setLanguage | setPickerStyle | setProfileOrder | addCustomBrowser
  | removeCustomBrowser | browserSetEnabled =>
    cases hok
    exact h

theorem grouped_lpt {c : LptCommand} (h : Grouped doc) (hplaces : Places doc (.lpt c))
    (hok : c.apply doc = .ok doc') : Grouped doc' := by
  cases c with
  | rulesAdd rule =>
    cases hok
    intro r hr
    rcases List.mem_append.mp hr with hold | hnew
    · exact h r hold
    · rw [List.mem_singleton.mp hnew]
      exact hplaces
  | rulesDelete idPrefix =>
    simp only [LptCommand.apply, rulesDelete] at hok
    split at hok
    · cases hok
    · cases hok
      exact fun r hr => h r (List.mem_of_mem_filter hr)
  | rulesSetEnabled idPrefix enabled =>
    simp only [LptCommand.apply, rulesSetEnabled] at hok
    split at hok
    · cases hok
    · split at hok
      · cases hok
      · rename_i rules hupdate
        cases hok
        intro r hr
        rcases mem_updateFirst hupdate hr with hold | ⟨q, hq, rfl⟩
        · exact h r hold
        · exact h q hq
  | rulesMove idPrefix pos =>
    obtain ⟨hframe, x, i, hmoved⟩ := moved_of_rulesMove hok
    rw [hframe]
    exact fun r hr => h r (hmoved.perm.mem_iff.mp hr)
  | workspacesAdd workspace =>
    cases hok
    exact grouped_upsertWorkspace h
  | workspacesDelete id =>
    simp only [LptCommand.apply, workspacesDelete] at hok
    split at hok
    · cases hok
    · cases hok
      exact grouped_workspaceDelete h
  | workspacesSetEnabled id enabled => exact grouped_workspaceSetEnabled h hok
  | browsersCustomRemove id =>
    simp only [LptCommand.apply, browsersCustomRemove] at hok
    split at hok
    · cases hok
    · cases hok
      exact h
  | configSetDefaultTarget | settingsSet | browsersCustomAdd | browsersSetEnabled =>
    cases hok
    exact h

theorem grouped_apply {e : Edit} (h : Grouped doc) (hplaces : Places doc e)
    (hok : e.apply doc = .ok doc') : Grouped doc' := by
  cases e with
  | gui c => exact grouped_gui h hplaces hok
  | lpt c => exact grouped_lpt h hplaces hok
  | reorder orderedIds =>
    obtain ⟨hframe, -, hmem⟩ := of_commitReorder hok
    rw [hframe]
    exact fun r hr => h r (hmem r hr)

end Edits

/-! ## Runs -/

section Runs

variable {ops : Nat → Edit} {w w' : World}

/-- The edits of `LostUpdates`, and the steps that put a whole document in place or that fail. -/
inductive Action where
  | edits (a : LostUpdates.Action)
  /-- `ConfigStore::replace` of an operation fails, before the stamp or at the write. -/
  | fail (i : Nat) (token : Option Uuid) (message : String)
  /-- `config_replace`, `import_config` or a `ConfigReplace` request. -/
  | replace (doc : ConfigDocument) (token : Uuid)
  | replaceFails (doc : ConfigDocument) (token : Option Uuid)
  /-- `lpt config import` and `lpt config compile`, whose document is stamped, or a text editor. -/
  | overwrite (doc : ConfigDocument)

/-- The memory of a process whose `replace` fails: the document is installed, and stamped unless
`create_dir_all` failed. -/
def unwritten (gui : State) (doc : ConfigDocument) : Option Uuid → State
  | none => gui.install doc
  | some token => (gui.install doc).stamp .gui token

def step (ops : Nat → Edit) (w : World) : Action → Option World
  | .edits a => LostUpdates.step ops w a
  | .fail i token message =>
    match w.phases i with
    | .edited _ doc =>
      let phases := w.setPhase i (.err message)
      match ops i with
      -- The store of an `lpt` process ends with it.
      | .lpt _ => some { w with phases := phases }
      | _ => some { w with gui := unwritten w.gui doc token, phases := phases }
    | _ => none
  | .replace doc token =>
    let gui := (w.gui.install doc).stamp .gui token
    some { w with gui := gui, disk := gui.doc }
  | .replaceFails doc token => some { w with gui := unwritten w.gui doc token }
  | .overwrite doc => some { w with disk := doc }

/-- The file, the memory of the desktop process, its page, and what the operations under way hold. -/
structure Everywhere (P : ConfigDocument → Prop) (w : World) : Prop where
  disk : P w.disk
  gui : P w.gui.doc
  page : P w.page
  read : ∀ i snapshot, w.phases i = .read snapshot → P snapshot
  edited : ∀ i snapshot doc, w.phases i = .edited snapshot doc → P doc

/-- The edits that are made meet the condition on the snapshots that they are made of. -/
def EditsMeet (ops : Nat → Edit) (C : ConfigDocument → Edit → Prop) (w : World) :
    LostUpdates.Action → Prop
  | .edit i => ∀ snapshot, w.phases i = .read snapshot → C snapshot (ops i)
  | _ => True

/-- And so do the documents that are put in place as a whole. -/
def Meets (ops : Nat → Edit) (P : ConfigDocument → Prop) (C : ConfigDocument → Edit → Prop)
    (w : World) : Action → Prop
  | .edits a => EditsMeet ops C w a
  | .fail _ _ _ => True
  | .replace doc _ => P doc
  | .replaceFails doc _ => P doc
  | .overwrite doc => P doc

variable {P : ConfigDocument → Prop} {C : ConfigDocument → Edit → Prop}

theorem everywhere_setPhase {i : Nat} {p : Phase} (h : Everywhere P w)
    (hread : ∀ snapshot, p = .read snapshot → P snapshot)
    (hedited : ∀ snapshot doc, p = .edited snapshot doc → P doc) :
    Everywhere P { w with phases := w.setPhase i p } :=
  { h with
    read := by
      intro j snapshot hj
      have hset : w.setPhase i p j = .read snapshot := hj
      rw [LostUpdates.setPhase_apply] at hset
      split at hset
      · exact hread snapshot hset
      · exact h.read j snapshot hset
    edited := by
      intro j snapshot doc hj
      have hset : w.setPhase i p j = .edited snapshot doc := hj
      rw [LostUpdates.setPhase_apply] at hset
      split at hset
      · exact hedited snapshot doc hset
      · exact h.edited j snapshot doc hset }

theorem everywhere_replace {doc : ConfigDocument} {token : Uuid} {e : Edit}
    (hmeta : ∀ d m, P d → P (d.withMeta m)) (h : Everywhere P w) (hdoc : P doc) :
    Everywhere P (w.replace e doc token) := by
  cases e with
  | lpt c => exact { h with disk := hmeta doc _ hdoc }
  | gui c => exact { h with disk := hmeta doc _ hdoc, gui := hmeta doc _ hdoc }
  | reorder ids => exact { h with disk := hmeta doc _ hdoc, gui := hmeta doc _ hdoc }

/-- **A step of an edit** keeps everywhere what the edits keep. -/
theorem everywhere_edits {a : LostUpdates.Action} (hmeta : ∀ d m, P d → P (d.withMeta m))
    (hkeep : ∀ d e d', P d → C d e → e.apply d = .ok d' → P d') (h : Everywhere P w)
    (hC : EditsMeet ops C w a) (hs : LostUpdates.step ops w a = some w') : Everywhere P w' := by
  cases a with
  | read i =>
    simp only [LostUpdates.step] at hs
    split at hs
    · cases hs
      refine everywhere_setPhase h (fun snapshot heq => ?_) (by simp)
      cases heq
      cases ops i with
      | gui c => exact h.gui
      | reorder ids => exact h.page
      | lpt c => exact h.disk
    · cases hs
  | edit i =>
    simp only [LostUpdates.step] at hs
    split at hs
    · rename_i snapshot hi
      split at hs
      · cases hs
        exact everywhere_setPhase h (by simp) (by simp)
      · rename_i doc hdoc
        cases hs
        refine everywhere_setPhase h (by simp) fun _ _ heq => ?_
        cases heq
        exact hkeep snapshot (ops i) doc (h.read i snapshot hi) (hC snapshot hi) hdoc
    · cases hs
  | publish i token =>
    simp only [LostUpdates.step] at hs
    split at hs
    · rename_i snapshot doc hi
      cases hs
      have hreplaced : Everywhere P (w.replace (ops i) doc token) :=
        everywhere_replace hmeta h (h.edited i snapshot doc hi)
      have hphases : Everywhere P { w with phases := w.setPhase i .ok } :=
        everywhere_setPhase h (by simp) (by simp)
      exact ⟨hreplaced.disk, hreplaced.gui, hreplaced.page, hphases.read, hphases.edited⟩
    · cases hs
  | reload =>
    cases hs
    refine { h with gui := ?_ }
    show P (w.gui.onDisk w.disk).doc
    unfold State.onDisk
    split
    · exact h.gui
    · exact h.disk
  | refresh =>
    cases hs
    exact { h with page := h.gui }

theorem unwritten_doc {doc : ConfigDocument} {token : Option Uuid}
    (hmeta : ∀ d m, P d → P (d.withMeta m)) (hdoc : P doc) : P (unwritten w.gui doc token).doc := by
  cases token with
  | none => exact hdoc
  | some token => exact hmeta doc _ hdoc

/-- **A step.** -/
theorem everywhere_step {a : Action} (hmeta : ∀ d m, P d → P (d.withMeta m))
    (hkeep : ∀ d e d', P d → C d e → e.apply d = .ok d' → P d') (h : Everywhere P w)
    (hC : Meets ops P C w a) (hs : step ops w a = some w') : Everywhere P w' := by
  cases a with
  | edits a => exact everywhere_edits hmeta hkeep h hC hs
  | fail i token message =>
    simp only [step] at hs
    split at hs
    · rename_i snapshot doc hi
      have hphases : Everywhere P { w with phases := w.setPhase i (.err message) } :=
        everywhere_setPhase h (by simp) (by simp)
      split at hs
      · cases hs
        exact hphases
      · cases hs
        exact { hphases with gui := unwritten_doc hmeta (h.edited i snapshot doc hi) }
    · cases hs
  | replace doc token =>
    cases hs
    exact { h with disk := hmeta doc _ hC, gui := hmeta doc _ hC }
  | replaceFails doc token =>
    cases hs
    exact { h with gui := unwritten_doc hmeta hC }
  | overwrite doc =>
    cases hs
    exact { h with disk := hC }

theorem everywhere_start (h0 : Start w) (hdisk : P w.disk) (hgui : P w.gui.doc) (hpage : P w.page) :
    Everywhere P w where
  disk := hdisk
  gui := hgui
  page := hpage
  read i snapshot hi := by
    rw [h0.phases i] at hi
    cases hi
  edited i snapshot doc hi := by
    rw [h0.phases i] at hi
    cases hi

/-- **Unique ids**, in every interleaving. -/
theorem documents_kept {as : List Action} (h0 : Start w) (hdisk : Kept w.disk)
    (hgui : Kept w.gui.doc) (hpage : Kept w.page)
    (h : Exec (step ops) (Meets ops Kept Proper) w as w') : Everywhere Kept w' :=
  h.invariant
    (fun _ _ _ hI hC hs => everywhere_step (fun _ _ hd => { hd with })
      (fun _ _ _ hd hproper hok => kept_apply hd hproper hok) hI hC hs)
    (everywhere_start h0 hdisk hgui hpage)

/-- **No rule without its workspace**, in every interleaving. -/
theorem groups_kept {as : List Action} (h0 : Start w) (hdisk : Grouped w.disk)
    (hgui : Grouped w.gui.doc) (hpage : Grouped w.page)
    (h : Exec (step ops) (Meets ops Grouped Places) w as w') : Everywhere Grouped w' :=
  h.invariant
    (fun _ _ _ hI hC hs => everywhere_step (fun _ _ hd => hd)
      (fun _ _ _ hd hplaces hok => grouped_apply hd hplaces hok) hI hC hs)
    (everywhere_start h0 hdisk hgui hpage)

end Runs

/-! ### A removed workspace and a rule in it -/

def workDoc : ConfigDocument :=
  { ConfigDocument.withDefault (.new "chrome") with workspaces := [⟨"work", "Work", none, true⟩] }

/-- Operation 0 removes the workspace, operation 1 adds a rule to it, and operation 2 switches the
routing off. -/
def removeAndAdd : Nat → Edit
  | 0 => .gui (.workspaceDelete "work")
  | 1 => .lpt (.rulesAdd { LostUpdates.blockRule with workspaceId := some "work" })
  | _ => .gui (.setSmartRouting false)

/-- All three have read the document with the workspace; the write of the third fails.  Then a
document is imported, and one compiled into the file. -/
def crossing : List Action :=
  [.edits (.read 0), .edits (.read 1), .edits (.read 2), .edits (.edit 0), .edits (.edit 1),
    .edits (.edit 2), .edits (.publish 0 1#128), .edits (.publish 1 2#128),
    .fail 2 (some 3#128) "No space left on device", .replace workDoc 4#128, .overwrite workDoc,
    .edits .reload]

theorem exec_crossing {P : ConfigDocument → Prop} {C : ConfigDocument → Edit → Prop}
    (hP : P workDoc) (hC : ∀ i, C workDoc (removeAndAdd i)) :
    ∃ w, Exec (step removeAndAdd) (Meets removeAndAdd P C) (LostUpdates.synced workDoc) crossing
      w := by
  refine ⟨_, .cons trivial rfl <| .cons trivial rfl <| .cons trivial rfl <| .cons ?_ rfl <|
    .cons ?_ rfl <| .cons ?_ rfl <| .cons trivial rfl <| .cons trivial rfl <| .cons trivial rfl <|
    .cons hP rfl <| .cons hP rfl <| .cons trivial rfl <| .nil _⟩
  all_goals
    intro snapshot h
    cases h
    exact hC _

theorem kept_workDoc : Kept workDoc where
  rules := .nil
  workspaces := by decide
  customBrowsers := .nil
  disabledBrowsers := .nil
  profileOrders e he := absurd he List.not_mem_nil

theorem documents_kept_crossing :
    ∃ w, run (step removeAndAdd) (LostUpdates.synced workDoc) crossing = some w ∧
      Everywhere Kept w := by
  have hproper : ∀ i, Proper workDoc (removeAndAdd i) := by
    intro i
    match i with
    | 0 => exact trivial
    | 1 => exact List.not_mem_nil
    | _ + 2 => exact trivial
  obtain ⟨w, hexec⟩ := exec_crossing kept_workDoc hproper
  exact ⟨w, hexec.run_eq, documents_kept ⟨fun _ => rfl, rfl⟩ kept_workDoc kept_workDoc kept_workDoc
    hexec⟩

/-- The removal is lost, and the rule has its workspace. -/
theorem groups_kept_crossing :
    ∃ w, run (step removeAndAdd) (LostUpdates.synced workDoc) crossing = some w ∧
      Everywhere Grouped w := by
  have hgrouped : Grouped workDoc := fun r hr => absurd hr List.not_mem_nil
  have hplaced : ∀ i, Places workDoc (removeAndAdd i) := by
    intro i
    match i with
    | 0 => exact trivial
    | 1 =>
      intro ws hws
      cases hws
      exact List.mem_cons_self
    | _ + 2 => exact trivial
  obtain ⟨w, hexec⟩ := exec_crossing hgrouped hplaced
  exact ⟨w, hexec.run_eq, groups_kept ⟨fun _ => rfl, rfl⟩ hgrouped hgrouped hgrouped hexec⟩

end LinkPilot.Integrity
