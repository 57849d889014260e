import LinkPilot.Migration

/-!
# Reading back every accepted config

What the operations that write the config file accept, at the nesting at which each of them
decodes its JSON, and whether the file they leave is loaded again.

A matcher lies three containers deep in the file.  `lpt rules add --when-json`
(`crates/cli/src/main.rs`) decodes it by itself, and the GUI's `rule_upsert`
(`apps/desktop/src-tauri/src/commands/mod.rs`) two containers deep; the operations that take a
whole document decode it as deep as the file has it, or deeper.

Principal results:

* `accept_rules` — the rules of an accepted document are those from before and the new one.
* `reads_again_iff` — the file is loaded again exactly when a new rule's matcher fits into it.
* `stays_loadable` — so it is over every run of operations whose matchers fit.
-/

set_option autoImplicit false

namespace LinkPilot

open Serde

/-! ## `lpt rules add` -/

/-- `RuleAddArgs`; `whenJson` and `thenJson` are the tokens of the two texts. -/
structure RuleAddArgs where
  disabled : Bool
  note : Option String
  workspace : Option String
  host : Option String
  path : Option String
  fromApp : Option String
  fromAppBundleId : Option String
  fromBrowser : Option String
  fromProfile : Option String
  whenJson : Option Json
  target : Option String
  targetProfile : Option String
  incognito : Bool
  newWindow : Bool
  keepSource : Bool
  ask : Bool
  block : Bool
  thenJson : Option Json

namespace RuleAddArgs

variable (limit : Nat) (a : RuleAddArgs)

/-- The clauses of `build_matcher` that the flags stand for. -/
def clauses : List MatcherTree :=
  (a.host.map .urlHost).toList ++ (a.path.map .urlPath).toList ++
    (a.fromApp.map fun name => .sourceApp name a.fromAppBundleId).toList ++
    (a.fromBrowser.map .sourceBrowser).toList ++ (a.fromProfile.map .sourceProfile).toList

/-- `build_matcher`. -/
def buildMatcher : Except String MatcherTree :=
  match a.whenJson with
  | some json =>
    match Json.fromStr limit MatcherTree.fromJson json with
    | none => .error "parsing --when-json"
    | some when => .ok when
  | none =>
    match a.clauses with
    | [] =>
      .error "rule needs at least one matcher (--host / --path / --from-app / --from-browser / --from-profile / --when-json)"
    | [when] => .ok when
    | of => .ok (.all of)

/-- `build_action`. -/
def buildAction : Except String Action :=
  match a.thenJson with
  | some json =>
    match Json.fromStr limit Action.fromJson json with
    | none => .error "parsing --then-json"
    | some action => .ok action
  | none =>
    match a.target with
    | some browser =>
      .ok (.openWith ⟨browser, a.targetProfile, none, a.incognito, a.newWindow⟩)
    | none =>
      if a.keepSource then .ok .keepSource
      else if a.ask then .ok .ask
      else if a.block then .ok .block
      else
        .error "rule needs an action (--target BROWSER / --keep-source / --ask / --block / --then-json)"

/-- The rule that `run_rules_add` builds, with a fresh id. -/
def buildRule (id : RuleId) : Except String Rule :=
  match a.buildMatcher limit with
  | .error e => .error e
  | .ok when =>
    match a.buildAction limit with
    | .error e => .error e
    | .ok action => .ok ⟨id, !a.disabled, when, action, .gui, a.note, a.workspace⟩

end RuleAddArgs

/-! ## The operations that write -/

/-- An argument of a GUI command, in the payload that the page sends. -/
def commandArg {α : Type} (key : String) (dec : Json → Option α) (payload : Json) : Option α :=
  (payload.toValue.entry key).bind dec

def ruleUpsertArgs : Json → Option Rule := commandArg "rule" Rule.fromJson

def configReplaceArgs : Json → Option ConfigDocument := commandArg "doc" ConfigDocument.fromJson

/-- An operation that writes the config file, with the JSON it is given. -/
inductive Write where
  | lptRulesAdd (args : RuleAddArgs) (id : RuleId)
  /-- The other closures handed to `mutate_local`. -/
  | lptMutate (command : LptCommand) (other : ∀ rule, command ≠ .rulesAdd rule)
  | lptConfigImport (src : Json)
  | lptConfigCompile (stdout : Json)
  | guiRuleUpsert (payload : Json)
  /-- The other commands of the GUI. -/
  | guiCommand (command : GuiCommand) (other : ∀ rule, command ≠ .ruleUpsert rule)
  | guiConfigReplace (payload : Json)
  | guiImportConfig (raw : Json)
  | ipcConfigReplace (frame : Json)

namespace Write

/-- The document that the operation hands to `replace`, when it accepts what it is given; `d` is
the document from before. -/
def accept (limit : Nat) (d : ConfigDocument) : Write → Option ConfigDocument
  | .lptRulesAdd args id =>
    match args.buildRule limit id with
    | .error _ => none
    | .ok rule => ((LptCommand.rulesAdd rule).apply d).toOption
  | .lptMutate command _ => (command.apply d).toOption
  | .lptConfigImport src => Json.fromStr limit ConfigDocument.fromJson src
  | .lptConfigCompile stdout => Json.fromStr limit ConfigDocument.fromJson stdout
  | .guiRuleUpsert payload =>
    (Json.fromStr limit ruleUpsertArgs payload).bind fun rule =>
      ((GuiCommand.ruleUpsert rule).apply d).toOption
  | .guiCommand command _ => (command.apply d).toOption
  | .guiConfigReplace payload => Json.fromStr limit configReplaceArgs payload
  | .guiImportConfig raw => Json.fromStr limit ConfigDocument.fromJson raw
  | .ipcConfigReplace frame =>
    match Json.fromStr limit Request.configReplaceFromJson frame with
    | some (.configReplace _ doc _) => some doc
    | _ => none

/-- The matcher that the operation brings in by itself, outside a whole document. -/
def matcher : Write → Option MatcherTree
  | .lptRulesAdd args _ => args.whenJson.bind MatcherTree.fromJson
  | .guiRuleUpsert payload => (ruleUpsertArgs payload).map Rule.when
  | _ => none

/-- Such a matcher leaves room for the three containers around it in the file. -/
def Fits (limit : Nat) (w : Write) : Prop := ∀ m, w.matcher = some m → m.nesting + 3 ≤ limit

end Write

/-! ## The rules of an edited document -/

section Edits

variable {α κ : Type} [DecidableEq κ] {key : α → κ}

theorem mem_upsert {x y : α} {l : List α} (h : y ∈ upsert key x l) : y = x ∨ y ∈ l := by
  induction l with
  | nil => exact .inl (List.mem_singleton.mp h)
  | cons z zs ih =>
    unfold upsert at h
    split at h
    · rcases List.mem_cons.mp h with h | h
      · exact .inl h
      · exact .inr (List.mem_cons_of_mem _ h)
    · rcases List.mem_cons.mp h with rfl | h
      · exact .inr List.mem_cons_self
      · exact (ih h).imp_right (List.mem_cons_of_mem _)

theorem mem_upsert_self (x : α) (l : List α) : x ∈ upsert key x l := by
  induction l with
  | nil => exact List.mem_singleton_self x
  | cons z zs ih =>
    unfold upsert
    split
    · exact List.mem_cons_self
    · exact List.mem_cons_of_mem _ ih

theorem mem_updateFirst {k : κ} {f : α → α} {l l' : List α} (h : updateFirst key k f l = some l') :
    ∀ y ∈ l', ∃ z ∈ l, y = z ∨ y = f z := by
  induction l generalizing l' with
  | nil => cases h
  | cons z zs ih =>
    unfold updateFirst at h
    split at h
    · cases h
      intro y hy
      rcases List.mem_cons.mp hy with rfl | hy
      · exact ⟨z, List.mem_cons_self, .inr rfl⟩
      · exact ⟨y, List.mem_cons_of_mem _ hy, .inl rfl⟩
    · obtain ⟨zs', hzs', rfl⟩ := Option.map_eq_some_iff.mp h
      intro y hy
      rcases List.mem_cons.mp hy with rfl | hy
      · exact ⟨y, List.mem_cons_self, .inl rfl⟩
      · obtain ⟨z', hz', hy⟩ := ih hzs' y hy
        exact ⟨z', List.mem_cons_of_mem _ hz', hy⟩

end Edits

/-- Every matcher of the rules `new` is one of the rules `old`. -/
def MatchersFrom (old new : List Rule) : Prop := ∀ r ∈ new, ∃ r' ∈ old, r'.when = r.when

theorem matchersFrom_of_subset {old new : List Rule} (h : ∀ r ∈ new, r ∈ old) :
    MatchersFrom old new := fun r hr => ⟨r, h r hr, rfl⟩

theorem matchersFrom_ungroup (id : String) (rules : List Rule) :
    MatchersFrom rules (rules.map (ungroup id)) := by
  intro r hr
  obtain ⟨r', hr', rfl⟩ := List.mem_map.mp hr
  refine ⟨r', hr', ?_⟩
  unfold ungroup
  split <;> rfl

/-- Of the GUI's commands only `rule_upsert` brings in a matcher. -/
theorem GuiCommand.matchersFrom {c : GuiCommand} {d d' : ConfigDocument}
    (hother : ∀ rule, c ≠ .ruleUpsert rule) (h : c.apply d = .ok d') :
    MatchersFrom d.rules d'.rules := by
  cases c with
  | ruleUpsert rule => exact absurd rfl (hother rule)
  | ruleDelete id =>
    cases h
    exact matchersFrom_of_subset fun r hr => (List.mem_filter.mp hr).1
  | workspaceDelete id =>
    cases h
    exact matchersFrom_ungroup id d.rules
  | workspaceSetEnabled id enabled =>
    simp only [apply, LinkPilot.workspaceSetEnabled] at h
    split at h
    · cases h
    · cases h
      exact matchersFrom_of_subset fun _ hr => hr
  | setLaunchAtLogin autostart enabled =>
    cases autostart with
    | error e => cases h
    | ok _ =>
      cases h
      exact matchersFrom_of_subset fun _ hr => hr
  | _ =>
    cases h
    exact matchersFrom_of_subset fun _ hr => hr

theorem mem_moveTo {rules : List Rule} {rule r : Rule} {idx target : Nat}
    (hrule : rule ∈ rules) (h : r ∈ moveTo rules rule idx target) : r ∈ rules := by
  unfold moveTo at h
  split at h
  · by_cases hle : target ≤ (rules.eraseIdx idx).length
    · rcases (List.mem_insertIdx hle).mp h with rfl | h
      · exact hrule
      · exact List.mem_of_mem_eraseIdx h
    · rw [List.insertIdx_of_length_lt (by omega)] at h
      exact List.mem_of_mem_eraseIdx h
  · exact h

/-- Of the closures handed to `mutate_local` only that of `lpt rules add` brings in a matcher. -/
theorem LptCommand.matchersFrom {c : LptCommand} {d d' : ConfigDocument}
    (hother : ∀ rule, c ≠ .rulesAdd rule) (h : c.apply d = .ok d') :
    MatchersFrom d.rules d'.rules := by
  cases c with
  | rulesAdd rule => exact absurd rfl (hother rule)
  | rulesDelete idPrefix =>
    simp only [apply, LinkPilot.rulesDelete] at h
    split at h
    · cases h
    · cases h
      exact matchersFrom_of_subset fun r hr => (List.mem_filter.mp hr).1
  | rulesSetEnabled idPrefix enabled =>
    simp only [apply, LinkPilot.rulesSetEnabled] at h
    split at h
    · cases h
    · split at h
      · cases h
      · rename_i rules hupdate
        cases h
        intro r hr
        obtain ⟨r', hr', rfl | rfl⟩ := mem_updateFirst hupdate r hr
        · exact ⟨r, hr', rfl⟩
        · exact ⟨r', hr', rfl⟩
  | rulesMove idPrefix pos =>
    simp only [apply, LinkPilot.rulesMove] at h
    split at h
    · cases h
    · split at h
      · cases h
      · rename_i rule hrule
        cases h
        exact matchersFrom_of_subset fun r hr => mem_moveTo (List.mem_of_getElem? hrule) hr
  | workspacesDelete id =>
    simp only [apply, LinkPilot.workspacesDelete] at h
    split at h
    · cases h
    · cases h
      exact matchersFrom_ungroup id d.rules
  | workspacesSetEnabled id enabled =>
    simp only [apply, LinkPilot.workspacesSetEnabled] at h
    split at h
    · cases h
    · cases h
      exact matchersFrom_of_subset fun _ hr => hr
  | browsersCustomRemove id =>
    simp only [apply, LinkPilot.browsersCustomRemove] at h
    split at h
    · cases h
    · cases h
      exact matchersFrom_of_subset fun _ hr => hr
  | _ =>
    cases h
    exact matchersFrom_of_subset fun _ hr => hr

/-! ## The rules of an accepted document -/

/-- A matcher that the flags stand for is nested at most three deep. -/
theorem RuleAddArgs.nesting_buildMatcher {limit : Nat} {a : RuleAddArgs} {when : MatcherTree}
    (hflags : a.whenJson = none) (h : a.buildMatcher limit = .ok when) : when.nesting ≤ 3 := by
  have hclauses : ∀ m ∈ a.clauses, m.nesting = 1 := by
    intro m hm
    simp only [clauses, List.mem_append, Option.mem_toList, Option.map_eq_some_iff] at hm
    rcases hm with (((⟨_, _, rfl⟩ | ⟨_, _, rfl⟩) | ⟨_, _, rfl⟩) | ⟨_, _, rfl⟩) | ⟨_, _, rfl⟩ <;> rfl
  unfold buildMatcher at h
  rw [hflags] at h
  simp only at h
  split at h
  · cases h
  · rename_i hone
    cases h
    rw [hclauses when (by rw [hone]; exact List.mem_singleton_self when)]
    omega
  · cases h
    have : MatcherTree.nestingAll a.clauses ≤ 1 :=
      MatcherTree.nestingAll_le_iff.mpr fun m hm => Nat.le_of_eq (hclauses m hm)
    simp only [MatcherTree.nesting]
    omega

/-- What `run_rules_add` appends. -/
theorem RuleAddArgs.buildRule_ok {limit : Nat} {a : RuleAddArgs} {id : RuleId} {rule : Rule}
    (h : a.buildRule limit id = .ok rule) : a.buildMatcher limit = .ok rule.when := by
  unfold buildRule at h
  split at h
  · cases h
  · rename_i when hwhen
    split at h
    · cases h
    · cases h
      exact hwhen

/-- The matcher of `--when-json` is taken as it is. -/
theorem RuleAddArgs.buildMatcher_json {limit : Nat} {a : RuleAddArgs} {json : Json}
    {when : MatcherTree} (hjson : a.whenJson = some json) (h : a.buildMatcher limit = .ok when) :
    MatcherTree.fromJson json = some when := by
  unfold buildMatcher at h
  rw [hjson] at h
  simp only at h
  split at h
  · cases h
  · rename_i hread
    cases h
    exact (Json.fromStr_eq_some_iff.mp hread).2

namespace Write

variable {limit : Nat} {d d' : ConfigDocument} {w : Write}

theorem toOption_eq_some_iff {ε α : Type} {x : Except ε α} {a : α} :
    x.toOption = some a ↔ x = .ok a := by
  cases x <;> simp [Except.toOption]

theorem accept_lptRulesAdd {args : RuleAddArgs} {id : RuleId}
    (h : (lptRulesAdd args id).accept limit d = some d') :
    ∃ rule, args.buildRule limit id = .ok rule ∧ d'.rules = d.rules ++ [rule] := by
  simp only [accept] at h
  split at h
  · cases h
  · rename_i rule hrule
    cases h
    exact ⟨rule, hrule, rfl⟩

theorem nesting_of_fromStr {raw : Json}
    (h : Json.fromStr limit ConfigDocument.fromJson raw = some d') :
    ∀ r ∈ d'.rules, r.when.nesting + 3 ≤ limit := by
  obtain ⟨hdepth, hdoc⟩ := Json.fromStr_eq_some_iff.mp h
  intro r hr
  exact Nat.le_trans (ConfigDocument.nesting_le hdoc r hr) hdepth

theorem nesting_of_args {payload : Json}
    (h : Json.fromStr limit configReplaceArgs payload = some d') :
    ∀ r ∈ d'.rules, r.when.nesting + 3 ≤ limit := by
  obtain ⟨hdepth, h⟩ := Json.fromStr_eq_some_iff.mp h
  obtain ⟨j, hentry, hdoc⟩ := Option.bind_eq_some_iff.mp h
  intro r hr
  have := ConfigDocument.nesting_le hdoc r hr
  have := Json.depth_of_entry hentry
  have := payload.depth_toValue_le
  omega

theorem nesting_of_frame {frame : Json} {requestId : String} {writer : WriterId}
    (h : Json.fromStr limit Request.configReplaceFromJson frame =
      some (.configReplace requestId d' writer)) :
    ∀ r ∈ d'.rules, r.when.nesting + 3 ≤ limit := by
  obtain ⟨hdepth, h⟩ := Json.fromStr_eq_some_iff.mp h
  obtain ⟨⟨type, f⟩, htag, h⟩ := Option.bind_eq_some_iff.mp h
  simp only at h
  split at h
  · obtain ⟨id, -, h⟩ := Option.bind_eq_some_iff.mp (Fields.read_eq_some h)
    obtain ⟨doc, hdoc, h⟩ := Option.bind_eq_some_iff.mp h
    obtain ⟨writer', -, h⟩ := Option.bind_eq_some_iff.mp h
    cases h
    obtain ⟨j, hj, hle⟩ := Fields.required_eq_some hdoc
    intro r hr
    have := ConfigDocument.nesting_le hj r hr
    have := Json.tagged_depth htag
    omega
  · cases h

/-- **Where rules come from.** Each rule of an accepted document has the operation's own matcher,
or that of a rule from before, or one that fits into the file. -/
theorem accept_rules (hlimit : 6 ≤ limit) (h : w.accept limit d = some d') :
    ∀ r ∈ d'.rules, w.matcher = some r.when ∨ (∃ r' ∈ d.rules, r'.when = r.when) ∨
      r.when.nesting + 3 ≤ limit := by
  cases w with
  | lptRulesAdd args id =>
    obtain ⟨rule, hrule, hrules⟩ := accept_lptRulesAdd h
    have hmatcher := RuleAddArgs.buildRule_ok hrule
    intro r hr
    rw [hrules] at hr
    rcases List.mem_append.mp hr with hr | hr
    · exact .inr (.inl ⟨r, hr, rfl⟩)
    · cases List.mem_singleton.mp hr
      cases hjson : args.whenJson with
      | none =>
        have := RuleAddArgs.nesting_buildMatcher hjson hmatcher
        exact .inr (.inr (by omega))
      | some json =>
        refine .inl ?_
        simp only [matcher, hjson, Option.bind_some]
        exact RuleAddArgs.buildMatcher_json hjson hmatcher
  | lptMutate command other =>
    have happly := toOption_eq_some_iff.mp h
    exact fun r hr => .inr (.inl (command.matchersFrom other happly r hr))
  | guiCommand command other =>
    have happly := toOption_eq_some_iff.mp h
    exact fun r hr => .inr (.inl (command.matchersFrom other happly r hr))
  | guiRuleUpsert payload =>
    obtain ⟨rule, hrule, h⟩ := Option.bind_eq_some_iff.mp h
    cases h
    intro r hr
    rcases mem_upsert hr with rfl | hr
    · refine .inl ?_
      simp only [matcher, (Json.fromStr_eq_some_iff.mp hrule).2, Option.map_some]
    · exact .inr (.inl ⟨r, hr, rfl⟩)
  | lptConfigImport src => exact fun r hr => .inr (.inr (nesting_of_fromStr h r hr))
  | lptConfigCompile stdout => exact fun r hr => .inr (.inr (nesting_of_fromStr h r hr))
  | guiImportConfig raw => exact fun r hr => .inr (.inr (nesting_of_fromStr h r hr))
  | guiConfigReplace payload => exact fun r hr => .inr (.inr (nesting_of_args h r hr))
  | ipcConfigReplace frame =>
    simp only [accept] at h
    split at h
    · rename_i hframe
      cases h
      exact fun r hr => .inr (.inr (nesting_of_frame hframe r hr))
    · cases h

/-- The operation's own matcher is in the document. -/
theorem accept_matcher (h : w.accept limit d = some d') {m : MatcherTree}
    (hm : w.matcher = some m) : ∃ r ∈ d'.rules, r.when = m := by
  cases w with
  | lptRulesAdd args id =>
    obtain ⟨rule, hrule, hrules⟩ := accept_lptRulesAdd h
    obtain ⟨json, hjson, hm⟩ := Option.bind_eq_some_iff.mp hm
    have hwhen := RuleAddArgs.buildMatcher_json hjson (RuleAddArgs.buildRule_ok hrule)
    refine ⟨rule, ?_, Option.some.inj (hwhen.symm.trans hm)⟩
    rw [hrules]
    exact List.mem_append_right _ (List.mem_singleton_self rule)
  | guiRuleUpsert payload =>
    obtain ⟨rule, hrule, h⟩ := Option.bind_eq_some_iff.mp h
    cases h
    simp only [matcher, (Json.fromStr_eq_some_iff.mp hrule).2, Option.map_some] at hm
    exact ⟨rule, mem_upsert_self rule d.rules, Option.some.inj hm⟩
  | _ => cases hm

/-- **What fits.** From a document whose matchers fit, the operation's document has matchers that
fit exactly when the operation's own matcher does. -/
theorem nesting_iff (hlimit : 6 ≤ limit) (hd : ∀ r ∈ d.rules, r.when.nesting + 3 ≤ limit)
    (h : w.accept limit d = some d') :
    (∀ r ∈ d'.rules, r.when.nesting + 3 ≤ limit) ↔ w.Fits limit := by
  constructor
  · intro hd' m hm
    obtain ⟨r, hr, rfl⟩ := accept_matcher h hm
    exact hd' r hr
  · intro hfits r hr
    rcases accept_rules hlimit h r hr with hm | ⟨r', hr', hsame⟩ | hle
    · exact hfits _ hm
    · rw [← hsame]
      exact hd r' hr'
    · exact hle

end Write

/-! ## The file that is left -/

/-- The file is loaded again, and read by the watcher of any process, as the document it was
written from. -/
structure ReadsAgain (limit : Nat) (store : ConfigStore Json) : Prop where
  load : ∀ ids token fault, ∃ loaded,
    ConfigStore.loadOrInit (jsonCodec limit) store.file ids token fault = .ok (loaded, false) ∧
      loaded.document.body = store.document.body
  watch : ∀ other : ConfigStore Json, other.file = store.file → ∃ origin other',
    ConfigStore.handleDiskChange (jsonCodec limit) other = (some origin, other') ∧
      (origin = .external → other'.document.body = store.document.body)

/-- The file that a `replace` has written reads again exactly when it is not nested too deep. -/
theorem readsAgain_iff {limit : Nat} {store store' : ConfigStore Json} {doc : ConfigDocument}
    {writer : WriterId} {token : Uuid} {fault : Option Fault}
    (h : ConfigStore.replace (jsonCodec limit) store doc writer token fault = (.ok (), store')) :
    ReadsAgain limit store' ↔ (doc.withMeta ⟨some token, some writer⟩).toJson.depth ≤ limit := by
  obtain ⟨hdocument, hfile⟩ := replace_ok h
  have hparse := parse_toJson limit store'.document
  rw [hdocument] at hfile hparse
  constructor
  · intro hreads
    by_contra hdeep
    rw [if_neg hdeep] at hparse
    have hparse : (jsonCodec limit).parse (doc.withMeta ⟨some token, some writer⟩).toJson = none :=
      hparse
    obtain ⟨loaded, hload, -⟩ := hreads.load (fun _ => 0#128) 0#128 none
    rw [hfile] at hload
    simp only [ConfigStore.loadOrInit, hparse] at hload
    cases hload
  · intro hdepth
    rw [if_pos hdepth] at hparse
    have hparse : (jsonCodec limit).parse (doc.withMeta ⟨some token, some writer⟩).toJson =
        some (doc.withMeta ⟨some token, some writer⟩, false) := hparse
    refine ⟨fun ids token' fault' => ?_, fun other hother => ?_⟩
    · rw [hfile]
      simp only [ConfigStore.loadOrInit, hparse]
      exact ⟨_, rfl, by rw [hdocument]; rfl⟩
    · simp only [ConfigStore.handleDiskChange, hother, hfile, hparse]
      refine ⟨_, _, rfl, fun horigin => ?_⟩
      have hne : other.state.origin (doc.withMeta ⟨some token, some writer⟩) ≠ .echo := by
        intro hecho
        rw [horigin] at hecho
        cases hecho
      simp only [ConfigStore.document, State.onDisk_external hne]
      exact congrArg ConfigDocument.body hdocument.symm

/-- **Reading back.** From a file that was loaded, the file that an accepted operation leaves is
loaded again as the same document exactly when the matcher that the operation brings in leaves
room for the three containers around it. -/
theorem reads_again_iff {limit : Nat} (hlimit : 6 ≤ limit) {raw : Json} {d d' : ConfigDocument}
    {migrated : Bool} (hload : parseWithPriorityMigration limit raw = some (d, migrated))
    {w : Write} (haccept : w.accept limit d = some d') {store store' : ConfigStore Json}
    {writer : WriterId} {token : Uuid} {fault : Option Fault}
    (hreplace : ConfigStore.replace (jsonCodec limit) store d' writer token fault =
      (.ok (), store')) :
    ReadsAgain limit store' ↔ w.Fits limit := by
  have hdepth := @ConfigDocument.depth_toJson_le_iff
    (d'.withMeta ⟨some token, some writer⟩) (limit - 5)
  rw [show limit - 5 + 5 = limit by omega] at hdepth
  have hrules : (d'.withMeta ⟨some token, some writer⟩).rules = d'.rules := rfl
  rw [readsAgain_iff hreplace, hdepth, hrules]
  exact Write.nesting_iff hlimit (nesting_of_parse hload) haccept

/-! ## Runs -/

/-- The file after an operation with its stamp: `persist` writes the document that the operation
made of the file, and a file that is not loaded, or a rejected operation, leaves it as it is. -/
def Write.perform (limit : Nat) (raw : Json) (w : Write × Meta) : Json :=
  match parseWithPriorityMigration limit raw with
  | none => raw
  | some (d, _) =>
    match w.1.accept limit d with
    | none => raw
    | some d' => (d'.withMeta w.2).toJson

/-- The file is loaded. -/
def Loadable (limit : Nat) (raw : Json) : Prop :=
  ∃ d migrated, parseWithPriorityMigration limit raw = some (d, migrated)

theorem Write.perform_loadable {limit : Nat} (hlimit : 6 ≤ limit) {raw : Json} {w : Write × Meta}
    (hfits : w.1.Fits limit) (h : Loadable limit raw) : Loadable limit (perform limit raw w) := by
  obtain ⟨d, migrated, hload⟩ := h
  unfold perform
  rw [hload]
  simp only
  split
  · exact ⟨d, migrated, hload⟩
  · rename_i d' haccept
    have hrules := (nesting_iff hlimit (nesting_of_parse hload) haccept).mpr hfits
    have hdepth : (d'.withMeta w.2).toJson.depth ≤ limit - 5 + 5 :=
      ConfigDocument.depth_toJson_le_iff.mpr fun r hr => by
        rw [Nat.sub_add_cancel (by omega)]
        exact hrules r hr
    rw [Nat.sub_add_cancel (by omega)] at hdepth
    refine ⟨d'.withMeta w.2, false, ?_⟩
    rw [parse_toJson, if_pos hdepth]

/-- Over any run of operations whose matchers fit, the file stays one that is loaded. -/
theorem stays_loadable {limit : Nat} (hlimit : 6 ≤ limit) {raw : Json} {ws : List (Write × Meta)}
    (hfits : ∀ w ∈ ws, w.1.Fits limit) (h : Loadable limit raw) :
    Loadable limit (ws.foldl (Write.perform limit) raw) := by
  induction ws generalizing raw with
  | nil => exact h
  | cons w ws ih =>
    obtain ⟨hw, hws⟩ := List.forall_mem_cons.mp hfits
    exact ih hws (Write.perform_loadable hlimit hw h)

/-! ## A matcher that is too deep -/

/-- `n` negations of `always`. -/
def tower : Nat → MatcherTree
  | 0 => .always
  | n + 1 => .not (tower n)

theorem nesting_tower (n : Nat) : (tower n).nesting = n + 1 := by
  induction n with
  | zero => rfl
  | succ n ih => simp only [tower, MatcherTree.nesting, ih]

/-- `lpt rules add --when-json … --block`. -/
def towerArgs (n : Nat) : RuleAddArgs where
  disabled := false
  note := none
  workspace := none
  host := none
  path := none
  fromApp := none
  fromAppBundleId := none
  fromBrowser := none
  fromProfile := none
  whenJson := some (tower n).toJson
  target := none
  targetProfile := none
  incognito := false
  newWindow := false
  keepSource := false
  ask := false
  block := true
  thenJson := none

/-- The rule that `lpt rules add` makes of it. -/
def towerRule (n : Nat) (id : RuleId) : Rule := ⟨id, true, tower n, .block, .gui, none, none⟩

theorem accept_towerArgs {limit n : Nat} (hn : n + 1 ≤ limit) (id : RuleId) (d : ConfigDocument) :
    (Write.lptRulesAdd (towerArgs n) id).accept limit d = some (rulesAdd (towerRule n id) d) := by
  have hread : Json.fromStr limit MatcherTree.fromJson (tower n).toJson = some (tower n) :=
    Json.fromStr_eq_some_iff.mpr
      ⟨by rw [MatcherTree.depth_toJson, nesting_tower]; exact hn, MatcherTree.fromJson_toJson _⟩
  have hrule : (towerArgs n).buildRule limit id = .ok (towerRule n id) := by
    simp only [RuleAddArgs.buildRule, RuleAddArgs.buildMatcher, towerArgs, hread]
    rfl
  simp only [Write.accept, hrule]
  rfl

theorem fits_towerArgs_iff {limit n : Nat} {id : RuleId} :
    (Write.lptRulesAdd (towerArgs n) id).Fits limit ↔ n + 4 ≤ limit := by
  have hmatcher : (Write.lptRulesAdd (towerArgs n) id).matcher = some (tower n) :=
    MatcherTree.fromJson_toJson _
  have hnesting := nesting_tower n
  unfold Write.Fits
  rw [hmatcher]
  constructor
  · intro h
    have := h _ rfl
    omega
  · intro h m hm
    cases hm
    omega

/-- The file as a new install has it, without the demo rules. -/
theorem parse_currentConfig {limit : Nat} (hlimit : 5 ≤ limit) :
    parseWithPriorityMigration limit (currentConfig []).toJson = some (currentConfig [], false) := by
  have hdepth : (currentConfig []).toJson.depth ≤ limit - 5 + 5 :=
    ConfigDocument.depth_toJson_le_iff.mpr fun r hr => nomatch hr
  rw [Nat.sub_add_cancel hlimit] at hdepth
  rw [parse_toJson, if_pos hdepth]

/-- The store of a process that has loaded it. -/
def currentStore : ConfigStore Json := ⟨⟨currentConfig [], none⟩, some (currentConfig []).toJson⟩

/-- A matcher that is nested 124 deep still fits. -/
theorem reads_again_tower :
    ReadsAgain 127 (ConfigStore.replace (jsonCodec 127) currentStore
      (rulesAdd (towerRule 123 1#128) (currentConfig [])) .cli 8#128 none).2 := by
  have haccept : (Write.lptRulesAdd (towerArgs 123) 1#128).accept 127 (currentConfig []) =
      some (rulesAdd (towerRule 123 1#128) (currentConfig [])) := accept_towerArgs (by decide) _ _
  have hreplace : ConfigStore.replace (jsonCodec 127) currentStore
      (rulesAdd (towerRule 123 1#128) (currentConfig [])) .cli 8#128 none = (.ok (), _) :=
    ConfigStore.persist_ok _ _ _
  have hfits : (Write.lptRulesAdd (towerArgs 123) 1#128).Fits 127 :=
    fits_towerArgs_iff.mpr (by decide)
  exact (reads_again_iff (by decide) (parse_currentConfig (by decide)) haccept hreplace).mpr hfits

/-- A file with a rule whose matcher is too deep is loaded by nobody: not by `load_or_init`, and
not by the watcher of a running daemon. -/
theorem unread_of_too_deep {limit : Nat} (hlimit : 5 ≤ limit) {store store' : ConfigStore Json}
    {d : ConfigDocument} {writer : WriterId} {token : Uuid} {fault : Option Fault}
    (h : ConfigStore.replace (jsonCodec limit) store d writer token fault = (.ok (), store'))
    {r : Rule} (hr : r ∈ d.rules) (hdeep : limit < r.when.nesting + 3) :
    (∀ ids token fault,
      ConfigStore.loadOrInit (jsonCodec limit) store'.file ids token fault = .error .serde) ∧
    ∀ other : ConfigStore Json, other.file = store'.file →
      ConfigStore.handleDiskChange (jsonCodec limit) other = (none, other) := by
  obtain ⟨hdocument, hfile⟩ := replace_ok h
  have hdepth : ¬ store'.document.toJson.depth ≤ limit := by
    intro hdepth
    rw [← Nat.sub_add_cancel hlimit, hdocument] at hdepth
    have := ConfigDocument.depth_toJson_le_iff.mp hdepth r hr
    omega
  have hparse : (jsonCodec limit).parse store'.document.toJson = none :=
    (parse_toJson limit store'.document).trans (if_neg hdepth)
  refine ⟨fun ids token fault => ?_, fun other hother => ?_⟩
  · rw [hfile]
    simp only [ConfigStore.loadOrInit, hparse]
  · simp only [ConfigStore.handleDiskChange, hother, hfile, hparse]

/-- `lpt rules add` takes a matcher that is nested 125 deep, and the file that it leaves is loaded
by nobody. -/
theorem tower_bricks :
    Loadable 127 (currentConfig []).toJson ∧
      ∃ d, (Write.lptRulesAdd (towerArgs 124) 1#128).accept 127 (currentConfig []) = some d ∧
        ∃ store : ConfigStore Json,
          ConfigStore.replace (jsonCodec 127) currentStore d .cli 8#128 none = (.ok (), store) ∧
          (∀ ids token fault,
            ConfigStore.loadOrInit (jsonCodec 127) store.file ids token fault = .error .serde) ∧
          ∀ other : ConfigStore Json, other.file = store.file →
            ConfigStore.handleDiskChange (jsonCodec 127) other = (none, other) := by
  have hdeep : 127 < (towerRule 124 1#128).when.nesting + 3 := by
    show 127 < (tower 124).nesting + 3
    rw [nesting_tower]
    decide
  have hreplace : ConfigStore.replace (jsonCodec 127) currentStore
      (rulesAdd (towerRule 124 1#128) (currentConfig [])) .cli 8#128 none = (.ok (), _) :=
    ConfigStore.persist_ok _ _ _
  refine ⟨⟨_, _, parse_currentConfig (by decide)⟩, _, accept_towerArgs (by decide) _ _, _,
    hreplace, ?_⟩
  exact unread_of_too_deep (by decide) hreplace (List.mem_singleton_self _) hdeep

end LinkPilot
