import Mathlib.Data.List.Basic
import Mathlib.Data.String.Basic

/-!
# The configuration document

Data model of `crates/core/src/browser.rs`, `rules.rs` and `config/mod.rs`: browsers and
targets, matcher trees, actions, rules, workspaces, settings, and the `ConfigDocument` that
the store keeps on disk.

Two source names are Lean keywords: the action of a rule (`then`) is `action` here, and the
document's `meta` block is `metaBlock`.  The `Open` variants are `openWith`.

`ConfigDocument.body` is the document with its `meta` block blanked: two documents are equal
*modulo meta* when their bodies are equal.
-/

set_option autoImplicit false

namespace LinkPilot

/-- A version-4 UUID. -/
abbrev Uuid := BitVec 128

/-! ## `browser.rs` -/

/-- `BrowserId`: stable identifier of a browser product (`"chrome"`, `"arc"`). -/
abbrev BrowserId := String

inductive BrowserKind where
  | chromium
  | firefox
  | safari
  | arc
  | unknown
  deriving DecidableEq, Repr

/-- `InstalledBrowser`; paths are kept as strings. -/
structure InstalledBrowser where
  id : BrowserId
  displayName : String
  kind : BrowserKind
  executable : String
  platformAppId : Option String
  profileRoot : Option String
  deriving DecidableEq, Repr

/-- `BrowserTarget`: routing target as written by the user. -/
structure BrowserTarget where
  browser : BrowserId
  profile : Option String
  workspace : Option String
  incognito : Bool
  newWindow : Bool
  deriving DecidableEq, Repr

/-- `BrowserTarget::new`. -/
def BrowserTarget.new (browser : BrowserId) : BrowserTarget :=
  ⟨browser, none, none, false, false⟩

/-- `BrowserTarget::with_profile`. -/
def BrowserTarget.withProfile (t : BrowserTarget) (profile : String) : BrowserTarget :=
  { t with profile := some profile }

/-! ## `rules.rs` -/

/-- `RuleId(Uuid)`. -/
abbrev RuleId := Uuid

inductive RuleSource where
  | gui
  | file
  | tsCompiled
  deriving DecidableEq, Repr

/-- `MatcherTree`: matcher AST. -/
inductive MatcherTree where
  | always
  | all (of : List MatcherTree)
  | any (of : List MatcherTree)
  | not (of : MatcherTree)
  | urlHost (pattern : String)
  | urlPath (pattern : String)
  | sourceApp (name : String) (bundleId : Option String)
  | sourceBrowser (browser : String)
  | sourceProfile (profile : String)
  deriving Repr

/-- `Action`: what to do when a rule matches. -/
inductive Action where
  | openWith (target : BrowserTarget)
  | keepSource
  | ask
  | block
  deriving DecidableEq, Repr

/-- `matches!(action, Action::Ask)`. -/
def Action.isAsk : Action → Bool
  | .ask => true
  | _ => false

/-- `Rule`.  Priority is the position in `ConfigDocument.rules`. -/
structure Rule where
  id : RuleId
  enabled : Bool
  when : MatcherTree
  action : Action
  source : RuleSource
  note : Option String
  workspaceId : Option String
  deriving Repr

/-! ## `config/mod.rs` -/

def SCHEMA_VERSION : UInt32 := 1

/-- `Workspace`: a named group of rules with one switch. -/
structure Workspace where
  id : String
  displayName : String
  description : Option String
  enabled : Bool
  deriving DecidableEq, Repr

inductive PickerStyle where
  | frosted
  | bezel
  | crown
  deriving DecidableEq, Repr

inductive AskQuickOpenModifier where
  | off
  | command
  | option
  | control
  | shift
  deriving DecidableEq, Repr

inductive LanguagePref where
  | system
  | en
  | zhCn
  | zhTw
  | jaJp
  deriving DecidableEq, Repr

/-- `BTreeMap<String, Vec<String>>`: its entries in key order. -/
structure ProfileOrders where
  entries : List (String × List String)
  sorted : entries.Pairwise fun a b => a.1 < b.1
  deriving DecidableEq, Repr

namespace ProfileOrders

/-- `BTreeMap::new`. -/
def empty : ProfileOrders := ⟨[], .nil⟩

/-- `BTreeMap::remove`. -/
def remove (m : ProfileOrders) (key : String) : ProfileOrders :=
  ⟨m.entries.filter fun e => e.1 != key, m.sorted.filter _⟩

def insertEntries (m : ProfileOrders) (key : String) (value : List String) :
    List (String × List String) :=
  (m.entries.filter fun e => decide (e.1 < key)) ++
    (key, value) :: m.entries.filter fun e => decide (key < e.1)

theorem sorted_insertEntries (m : ProfileOrders) (key : String) (value : List String) :
    (m.insertEntries key value).Pairwise fun a b => a.1 < b.1 := by
  unfold insertEntries
  rw [List.pairwise_append, List.pairwise_cons]
  refine ⟨m.sorted.filter _, ⟨?_, m.sorted.filter _⟩, ?_⟩
  · intro b hb
    simpa using (List.mem_filter.mp hb).2
  · intro a ha b hb
    have hak : a.1 < key := by simpa using (List.mem_filter.mp ha).2
    rcases List.mem_cons.mp hb with rfl | hb
    · exact hak
    · have hkb : key < b.1 := by simpa using (List.mem_filter.mp hb).2
      exact lt_trans hak hkb

/-- `BTreeMap::insert`. -/
def insert (m : ProfileOrders) (key : String) (value : List String) : ProfileOrders :=
  ⟨m.insertEntries key value, m.sorted_insertEntries key value⟩

end ProfileOrders

structure Settings where
  launchAtLogin : Bool
  historyRetentionDays : Option UInt32
  recordQueryStrings : Bool
  autoCheckUpdates : Bool
  smartRoutingEnabled : Bool
  pickerStyle : PickerStyle
  askQuickOpenModifier : AskQuickOpenModifier
  profileOrders : ProfileOrders
  disabledBrowsers : List String
  language : LanguagePref
  behaviorLogEnabled : Bool
  behaviorLogRetentionDays : Option UInt32
  deriving DecidableEq, Repr

/-- `impl Default for Settings`. -/
def Settings.default : Settings where
  launchAtLogin := false
  historyRetentionDays := none
  recordQueryStrings := false
  autoCheckUpdates := true
  smartRoutingEnabled := true
  pickerStyle := .frosted
  askQuickOpenModifier := .command
  profileOrders := .empty
  disabledBrowsers := []
  language := .system
  behaviorLogEnabled := true
  behaviorLogRetentionDays := some 90

inductive WriterId where
  | gui
  | file
  | cli
  | tsCompiled
  deriving DecidableEq, Repr

/-- `Meta`: who saved the document last, and the token that save was stamped with. -/
structure Meta where
  lastWriterToken : Option Uuid
  lastWriter : Option WriterId
  deriving DecidableEq, Repr

/-- `Meta::default()`. -/
def Meta.default : Meta := ⟨none, none⟩

structure ConfigDocument where
  version : UInt32
  defaultTarget : BrowserTarget
  rules : List Rule
  workspaces : List Workspace
  customBrowsers : List InstalledBrowser
  settings : Settings
  metaBlock : Meta
  deriving Repr

namespace ConfigDocument

/-- `ConfigDocument::with_default`. -/
def withDefault (target : BrowserTarget) : ConfigDocument where
  version := SCHEMA_VERSION
  defaultTarget := target
  rules := []
  workspaces := []
  customBrowsers := []
  settings := Settings.default
  metaBlock := Meta.default

/-- The closure `mk` of `ConfigDocument::demo`; the id is the fresh `RuleId::default()`. -/
def demoRule (id : RuleId) (host : String) (target : BrowserTarget) : Rule where
  id := id
  enabled := true
  when := .urlHost host
  action := .openWith target
  source := .gui
  note := none
  workspaceId := none

/-- `ConfigDocument::demo`, given the four fresh rule ids it draws. -/
def demo (ids : Fin 4 → RuleId) : ConfigDocument :=
  let chromeWork := (BrowserTarget.new "chrome").withProfile "Default"
  let arc := BrowserTarget.new "arc"
  { withDefault (BrowserTarget.new "system") with
    rules := [demoRule (ids 0) "github.com" chromeWork, demoRule (ids 1) "notion.so" chromeWork,
      demoRule (ids 2) "figma.com" arc, demoRule (ids 3) "youtube.com" arc] }

/-- The document with its `meta` block replaced. -/
def withMeta (d : ConfigDocument) (m : Meta) : ConfigDocument := { d with metaBlock := m }

/-- The document *modulo meta*. -/
def body (d : ConfigDocument) : ConfigDocument := d.withMeta Meta.default

@[simp] theorem withMeta_withMeta (d : ConfigDocument) (m m' : Meta) :
    (d.withMeta m).withMeta m' = d.withMeta m' := rfl

@[simp] theorem withMeta_self (d : ConfigDocument) : d.withMeta d.metaBlock = d := rfl

theorem eq_withMeta_of_body_eq {d e : ConfigDocument} (h : d.body = e.body) :
    d = e.withMeta d.metaBlock := by
  have := congrArg (fun x => x.withMeta d.metaBlock) h
  simpa [body] using this

end ConfigDocument

end LinkPilot
