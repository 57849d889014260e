import LinkPilot.Explain
import LinkPilot.RouteHistory
import Mathlib.Data.List.Forall2
import Mathlib.Data.List.Induction

/-!
# Query strings in the route history

Model of what each entry point for URLs logs: `dispatch_system_url` of
`apps/desktop/src-tauri/src/url_handler.rs`, `route_open` of `commands/mod.rs`, and `RouteOpen` over
IPC through `evaluate_and_log_with_ask_shortcut` of `crates/core/src/daemon.rs`.

Principal results:

* `inner_history` — the history holds the records of the last `DEFAULT_CAPACITY` opens.
* `decided_alike` — URLs that parse alike are decided alike.
* `history_same_iff` — two sequences of opens that differ in the queries leave the same history
  exactly when the URLs that are still in it are the same strings, whatever `record_query_strings`
  is.
* `queries_are_recorded` — with recording off, the query is in the history.
-/

set_option autoImplicit false

namespace LinkPilot

/-! ## Entry points -/

/-- `OpenerApp`, as far as `dispatch_system_url` reads it. -/
structure OpenerApp where
  name : String
  bundleId : Option String
  deriving DecidableEq, Repr

/-- `RouteRequest` of the GUI commands. -/
structure RouteRequest where
  url : String
  fromApp : Option String
  fromAppBundleId : Option String
  fromBrowser : Option String
  fromProfile : Option String
  deriving DecidableEq, Repr

/-- The context that `dispatch_system_url` builds. -/
def systemContext (opener : Option OpenerApp) (url : String) : RoutingContext where
  url := url
  source :=
    { kind := .system
      appName := opener.map OpenerApp.name
      bundleId := opener.bind OpenerApp.bundleId
      browser := none
      profile := none }
  navigation := none
  environment := none

/-- `build_context` of the GUI commands. -/
def RouteRequest.buildContext (req : RouteRequest) : RoutingContext where
  url := req.url
  source :=
    { kind := if req.fromBrowser.isSome then .browserExtension else .system
      appName := req.fromApp
      bundleId := req.fromAppBundleId
      browser := req.fromBrowser
      profile := req.fromProfile }
  navigation := none
  environment := none

section Log

variable (urlParse : String → Option Url) (doc : ConfigDocument) (pressed : Bool) (now : Nat)

/-- `evaluate_and_log_with_ask_shortcut`. -/
def evaluateAndLogWithAskShortcut (context : RoutingContext) (history : RouteHistory) :
    Explained × RouteHistory :=
  let explained := evaluateExplainedWithAskShortcut urlParse doc context pressed
  (explained, history.log (RouteRecord.ofExplained now context explained))

/-- `dispatch_system_url`, up to the dispatch. -/
def dispatchSystemUrl (opener : Option OpenerApp) (url : String) (history : RouteHistory) :
    Explained × RouteHistory :=
  evaluateAndLogWithAskShortcut urlParse doc pressed now (systemContext opener url) history

/-- `route_open`, up to the dispatch. -/
def routeOpen (request : RouteRequest) (history : RouteHistory) : Explained × RouteHistory :=
  evaluateAndLogWithAskShortcut urlParse doc pressed now request.buildContext history

end Log

/-- A URL that comes in through one of the entry points. -/
inductive UrlOpen where
  | system (opener : Option OpenerApp) (url : String)
  | gui (request : RouteRequest)
  | ipc (context : RoutingContext)
  deriving DecidableEq

namespace UrlOpen

def context : UrlOpen → RoutingContext
  | system opener url => systemContext opener url
  | gui request => request.buildContext
  | ipc context => context

def url : UrlOpen → String
  | system _ url => url
  | gui request => request.url
  | ipc context => context.url

def withUrl (url : String) : UrlOpen → UrlOpen
  | system opener _ => .system opener url
  | gui request => .gui { request with url := url }
  | ipc context => .ipc { context with url := url }

@[simp] theorem context_url (o : UrlOpen) : o.context.url = o.url := by
  cases o <;> rfl

@[simp] theorem withUrl_url (o : UrlOpen) : o.withUrl o.url = o := by
  cases o <;> rfl

end UrlOpen

/-- An open: what comes in, whether the shortcut is held, and when. -/
structure Opened where
  entry : UrlOpen
  pressed : Bool
  now : Nat

section History

variable (urlParse : String → Option Url) (doc : ConfigDocument)

/-- What an open does to the history. -/
def Opened.log (history : RouteHistory) (o : Opened) : RouteHistory :=
  match o.entry with
  | .system opener url => (dispatchSystemUrl urlParse doc o.pressed o.now opener url history).2
  | .gui request => (routeOpen urlParse doc o.pressed o.now request history).2
  | .ipc context => (evaluateAndLogWithAskShortcut urlParse doc o.pressed o.now context history).2

/-- The history of a process after the given opens. -/
def historyAfter (opens : List Opened) : RouteHistory :=
  opens.foldl (Opened.log urlParse doc) RouteHistory.new

/-- The record of an open. -/
def Opened.record (o : Opened) : RouteRecord :=
  RouteRecord.ofExplained o.now o.entry.context
    (evaluateExplainedWithAskShortcut urlParse doc o.entry.context o.pressed)

theorem Opened.log_eq (history : RouteHistory) (o : Opened) :
    o.log urlParse doc history = history.log (o.record urlParse doc) := by
  rcases o with ⟨entry, pressed, now⟩
  cases entry <;> rfl

/-! ## The ring buffer -/

theorem historyAfter_concat (opens : List Opened) (o : Opened) :
    historyAfter urlParse doc (opens ++ [o]) =
      (historyAfter urlParse doc opens).log (o.record urlParse doc) := by
  simp [historyAfter, Opened.log_eq]

theorem capacity_history (opens : List Opened) :
    (historyAfter urlParse doc opens).capacity = DEFAULT_CAPACITY := by
  induction opens using List.reverseRecOn with
  | nil => rfl
  | append_singleton opens o ih =>
    rw [historyAfter_concat]
    exact ih

theorem inner_history (opens : List Opened) :
    (historyAfter urlParse doc opens).inner =
      (opens.map (Opened.record urlParse doc)).drop (opens.length - DEFAULT_CAPACITY) := by
  induction opens using List.reverseRecOn with
  | nil => rfl
  | append_singleton opens o ih =>
    have hcapacity := capacity_history urlParse doc opens
    have hinner : (historyAfter urlParse doc opens).inner =
        (opens.map (Opened.record urlParse doc)).drop
          ((opens.map (Opened.record urlParse doc)).length -
            (historyAfter urlParse doc opens).capacity) := by
      rw [ih, hcapacity, List.length_map]
    rw [historyAfter_concat, RouteHistory.inner_log (by rw [hcapacity]; decide) hinner]
    simp [hcapacity]

end History

/-! ## Opens that differ in the query -/

/-- The URL without its query component: what is between the first `?` and the `#` behind it. -/
def stripQuery (url : String) : List Char :=
  let beforeQuery := url.toList.takeWhile fun c => c != '?' && c != '#'
  match url.toList.dropWhile fun c => c != '?' && c != '#' with
  | '?' :: query => beforeQuery ++ query.dropWhile (· != '#')
  | _ => url.toList

/-- The second open is the first one with another query, at another time. -/
structure DiffersInQuery (o o' : Opened) : Prop where
  query : stripQuery o.entry.url = stripQuery o'.entry.url
  entry : o'.entry = o.entry.withUrl o'.entry.url
  pressed : o'.pressed = o.pressed

def RouteRecord.withoutTime (r : RouteRecord) : RouteRecord := { r with timestampMs := 0 }

/-- What the `RouteHistory` verb sends, without the times. -/
def Response.withoutTimes : Response → Response
  | .routeHistorySnapshot requestId records =>
    .routeHistorySnapshot requestId (records.map RouteRecord.withoutTime)
  | r => r

/-- Nothing that can be read of the histories tells them apart, the times not counted. -/
structure SameHistory (h h' : RouteHistory) : Prop where
  recent : ∀ limit, (h.recent limit).map RouteRecord.withoutTime =
    (h'.recent limit).map RouteRecord.withoutTime
  verb : ∀ {Text : Type} (codec : Codec Text) (host : Host) (rt : DaemonRuntime Text) (now : Nat)
    (token : Uuid) (fault : Option Fault) (requestId : String) (limit : Option Nat),
    (DaemonRuntime.handle codec host { rt with history := h } now token fault
        (.routeHistory requestId limit)).1.withoutTimes =
      (DaemonRuntime.handle codec host { rt with history := h' } now token fault
        (.routeHistory requestId limit)).1.withoutTimes

theorem sameHistory_iff {h h' : RouteHistory} :
    SameHistory h h' ↔
      h.inner.map RouteRecord.withoutTime = h'.inner.map RouteRecord.withoutTime := by
  constructor
  · intro hsame
    have hall := hsame.recent (h.inner.length + h'.inner.length)
    simp only [RouteHistory.recent] at hall
    rw [List.take_of_length_le (by simp), List.take_of_length_le (by simp)] at hall
    simpa using hall
  · intro hinner
    have hrecent : ∀ limit, (h.recent limit).map RouteRecord.withoutTime =
        (h'.recent limit).map RouteRecord.withoutTime := by
      intro limit
      simp only [RouteHistory.recent, List.map_take, List.map_reverse, hinner]
    refine ⟨hrecent, ?_⟩
    intro Text codec host rt now token fault requestId limit
    simp [DaemonRuntime.handle, Response.withoutTimes, hrecent]

/-- The URLs of the opens that the history still holds. -/
def recordedUrls (opens : List Opened) : List String :=
  (opens.map fun o => o.entry.url).drop (opens.length - DEFAULT_CAPACITY)

section TwoRuns

variable {urlParse : String → Option Url} {doc : ConfigDocument}

mutual

/-- A matcher sees of the URL what the parser makes of it. -/
theorem evalTree_withUrl {ctx : RoutingContext} {url : String}
    (h : urlParse url = urlParse ctx.url) :
    ∀ t : MatcherTree, evalTree urlParse { ctx with url := url } t = evalTree urlParse ctx t
  | .always => rfl
  | .all of => by simp only [evalTree, evalTrees_withUrl h of]
  | .any of => by simp only [evalTree, evalTrees_withUrl h of]
  | .not of => by simp only [evalTree, evalTree_withUrl h of]
  | .urlHost _ => by simp only [evalTree, matchHost, h]
  | .urlPath _ => by simp only [evalTree, matchPath, h]
  | .sourceApp _ _ => rfl
  | .sourceBrowser _ => rfl
  | .sourceProfile _ => rfl

theorem evalTrees_withUrl {ctx : RoutingContext} {url : String}
    (h : urlParse url = urlParse ctx.url) :
    ∀ ts : List MatcherTree,
      evalTrees urlParse { ctx with url := url } ts = evalTrees urlParse ctx ts
  | [] => rfl
  | t :: ts => by simp only [evalTrees, evalTree_withUrl h t, evalTrees_withUrl h ts]

end

/-- Another query changes the text of the URL in the record and nothing else of it. -/
theorem decided_alike {ctx : RoutingContext} {url : String} (h : urlParse url = urlParse ctx.url)
    (pressed : Bool) (now : Nat) :
    evaluateExplainedWithAskShortcut urlParse doc { ctx with url := url } pressed =
        evaluateExplainedWithAskShortcut urlParse doc ctx pressed ∧
      RouteRecord.ofExplained now { ctx with url := url }
          (evaluateExplainedWithAskShortcut urlParse doc { ctx with url := url } pressed) =
        { RouteRecord.ofExplained now ctx
            (evaluateExplainedWithAskShortcut urlParse doc ctx pressed) with
          context := { ctx with url := url } } := by
  have hsame : evaluateExplainedWithAskShortcut urlParse doc { ctx with url := url } pressed =
      evaluateExplainedWithAskShortcut urlParse doc ctx pressed := by
    unfold evaluateExplainedWithAskShortcut
    split
    · rfl
    · refine evaluateRules_congr urlParse rfl (fun r _ => ?_) none
      simp only [fires, explainRule, evalTree_withUrl h, and_self]
  exact ⟨hsame, by rw [hsame]; rfl⟩

theorem record_withoutTime_iff {o o' : Opened} (h : DiffersInQuery o o') :
    (o.record urlParse doc).withoutTime = (o'.record urlParse doc).withoutTime ↔
      o.entry.url = o'.entry.url := by
  constructor
  · intro hrecord
    have hcontext : o.entry.context = o'.entry.context := congrArg RouteRecord.context hrecord
    have hurl := congrArg RoutingContext.url hcontext
    simpa using hurl
  · intro hurl
    have hentry : o'.entry = o.entry := by
      rw [h.entry, ← hurl, UrlOpen.withUrl_url]
    simp [Opened.record, RouteRecord.withoutTime, RouteRecord.ofExplained,
      RouteRecord.withExplanation, hentry, h.pressed]

variable (urlParse) (doc) in
theorem map_record_iff {opens opens' : List Opened}
    (h : List.Forall₂ DiffersInQuery opens opens') :
    opens.map (fun o => (o.record urlParse doc).withoutTime) =
        opens'.map (fun o => (o.record urlParse doc).withoutTime) ↔
      opens.map (fun o => o.entry.url) = opens'.map (fun o => o.entry.url) := by
  induction h with
  | nil => simp
  | cons hhead _ ih => simp only [List.map_cons, List.cons.injEq, record_withoutTime_iff hhead, ih]

end TwoRuns

/-- **Queries in the history.** Two sequences of opens, through any entry points, that differ in the
queries of the URLs leave histories that look the same exactly when the URLs of the last
`DEFAULT_CAPACITY` opens do not differ after all. The setting `record_query_strings` has no part
in it. -/
theorem history_same_iff {opens opens' : List Opened}
    (h : List.Forall₂ DiffersInQuery opens opens') (urlParse : String → Option Url)
    (doc : ConfigDocument) :
    SameHistory (historyAfter urlParse doc opens) (historyAfter urlParse doc opens') ↔
      recordedUrls opens = recordedUrls opens' := by
  have hdrop := List.forall₂_drop (opens.length - DEFAULT_CAPACITY) h
  have hmap := map_record_iff urlParse doc hdrop
  rw [sameHistory_iff, inner_history, inner_history, ← h.length_eq]
  simp only [recordedUrls, ← h.length_eq, List.map_drop, List.map_map] at hmap ⊢
  exact hmap

/-! ### A token in the query -/

/-- A URL event for a page, with a token in the query. -/
def tokenOpened (token : String) (now : Nat) : Opened :=
  ⟨.system none ("https://bank.example/?token=" ++ token), false, now⟩

def bankParse : String → Option Url := fun _ => some ⟨some "bank.example", "/"⟩

/-- Recording is off, as it is by default. -/
def quietDocument : ConfigDocument := ConfigDocument.withDefault (BrowserTarget.new "chrome")

/-- The same URL at two times. -/
theorem history_same_iff_times :
    SameHistory (historyAfter bankParse quietDocument [tokenOpened "1" 0])
      (historyAfter bankParse quietDocument [tokenOpened "1" 5]) := by
  have hdiffers : DiffersInQuery (tokenOpened "1" 0) (tokenOpened "1" 5) := ⟨rfl, rfl, rfl⟩
  exact (history_same_iff (.cons hdiffers .nil) bankParse quietDocument).mpr rfl

/-- With recording off, two opens that differ in a token leave histories that differ in it. -/
theorem queries_are_recorded :
    quietDocument.settings.recordQueryStrings = false ∧
      DiffersInQuery (tokenOpened "1" 0) (tokenOpened "2" 0) ∧
      ((historyAfter bankParse quietDocument [tokenOpened "1" 0]).recent 1).map (·.context.url) =
        ["https://bank.example/?token=1"] ∧
      ¬ SameHistory (historyAfter bankParse quietDocument [tokenOpened "1" 0])
        (historyAfter bankParse quietDocument [tokenOpened "2" 0]) := by
  refine ⟨rfl, ⟨by decide, rfl, rfl⟩, by decide, fun hsame => ?_⟩
  have hrecent := congrArg (List.map (·.context.url)) (hsame.recent 1)
  exact absurd hrecent (by decide)

end LinkPilot
