import LinkPilot.Daemon

/-!
# Carrying out a decision

Model of `execute` of `apps/desktop/src-tauri/src/dispatch.rs` in the direct edition, up to the
hand-over to the picker thread: the plan for an Open decision, the launches, and the fallback to the
default target.

Principal results:

* `never_dropped_iff` — an Open decision ends in a launched browser or in the Ask flow exactly when
  the primary is not launched in vain with a default that is the same browser or fails as well.
* `both_launches_fail` — both browsers installed and both launches failing: the URL is dropped.
-/

set_option autoImplicit false

namespace LinkPilot

/-! ## `dispatch.rs` -/

inductive LaunchOutcome where
  | launched (target : BrowserTarget)
  | skipped
  | pending
  | failed (error : String)
  deriving DecidableEq, Repr

inductive OpenPlan where
  | primary
  | default
  | ask
  deriving DecidableEq, Repr

/-- What `spawn_ask` hands to the picker thread. -/
structure AskRequest where
  candidates : List BrowserTarget
  rawUrl : String
  defaultTarget : BrowserTarget
  deriving DecidableEq, Repr

/-- A run of `execute`: its outcome, the launcher calls in order, and then what it has handed to the
Ask flow. -/
structure Execution where
  outcome : LaunchOutcome
  calls : List Launch
  asks : List AskRequest
  deriving DecidableEq, Repr

/-- What `execute` finds around it: `Url::parse` with the parsed URL as text, the inventory, and the
result of the `n`-th launcher call. -/
structure Desktop where
  parseUrl : String → Except String String
  installedBrowsers : Except String (List InstalledBrowser)
  launch : Nat → BrowserTarget → String → Except String Unit

/-- `distribution::validate_document` of the direct edition. -/
def validateDocument (_doc : ConfigDocument) : Except String Unit := .ok ()

/-- `distribution::validate_target` of the direct edition. -/
def validateTarget (_target : BrowserTarget) : Except String Unit := .ok ()

/-- `installed_browser_ids`; an inventory that cannot be read counts as empty. -/
def installedBrowserIds (inventory : Except String (List InstalledBrowser)) : List BrowserId :=
  match inventory with
  | .ok browsers => browsers.map InstalledBrowser.id
  | .error _ => []

/-- `plan_open_target`. -/
def planOpenTarget (primary defaultTarget : BrowserTarget) (installedIds : List BrowserId) :
    OpenPlan :=
  if primary.browser ∈ installedIds then .primary
  else if primary.browser ≠ defaultTarget.browser ∧ defaultTarget.browser ∈ installedIds then
    .default
  else .ask

/-- `open_with_default_fallback`. -/
def openWithDefaultFallback (launch : Nat → BrowserTarget → String → Except String Unit)
    (primary defaultTarget : BrowserTarget) (url : String) :
    Except String BrowserTarget × List Launch :=
  match validateTarget primary, validateTarget defaultTarget with
  | .error e, _ => (.error e, [])
  | _, .error e => (.error e, [])
  | .ok (), .ok () =>
    match launch 0 primary url with
    | .ok () => (.ok primary, [⟨primary, url, true⟩])
    | .error primaryErr =>
      if primary.browser = defaultTarget.browser then
        (.error ("launch failed: " ++ primaryErr ++
          " (no fallback — primary already matches default browser '" ++ primary.browser ++ "')"),
          [⟨primary, url, false⟩])
      else
        match launch 1 defaultTarget url with
        | .ok () => (.ok defaultTarget, [⟨primary, url, false⟩, ⟨defaultTarget, url, true⟩])
        | .error defaultErr =>
          (.error ("primary launch failed (" ++ primaryErr ++ "); default fallback also failed (" ++
            defaultErr ++ ")"),
            [⟨primary, url, false⟩, ⟨defaultTarget, url, false⟩])

/-- `spawn_ask`, after the given launcher calls. -/
def spawnAsk (calls : List Launch) (candidates : List BrowserTarget) (rawUrl : String)
    (defaultTarget : BrowserTarget) : Execution :=
  ⟨.pending, calls, [⟨candidates, rawUrl, defaultTarget⟩]⟩

/-- The `Open` arm of `execute`. -/
def executeOpen (desktop : Desktop) (target defaultTarget : BrowserTarget)
    (rawUrl parsed : String) : Execution :=
  let installedIds := installedBrowserIds desktop.installedBrowsers
  match planOpenTarget target defaultTarget installedIds with
  | .primary =>
    if defaultTarget.browser ∈ installedIds ∨ target.browser = defaultTarget.browser then
      match openWithDefaultFallback desktop.launch target defaultTarget parsed with
      | (.ok launched, calls) => ⟨.launched launched, calls, []⟩
      | (.error err, calls) => ⟨.failed err, calls, []⟩
    else
      match desktop.launch 0 target parsed with
      | .ok () => ⟨.launched target, [⟨target, parsed, true⟩], []⟩
      | .error _ => spawnAsk [⟨target, parsed, false⟩] [] rawUrl defaultTarget
  | .default =>
    match desktop.launch 0 defaultTarget parsed with
    | .ok () => ⟨.launched defaultTarget, [⟨defaultTarget, parsed, true⟩], []⟩
    | .error _ => spawnAsk [⟨defaultTarget, parsed, false⟩] [] rawUrl defaultTarget
  | .ask => spawnAsk [] [] rawUrl defaultTarget

/-- `execute`. -/
def execute (desktop : Desktop) (doc : ConfigDocument) (decision : RoutingDecision)
    (rawUrl : String) : Execution :=
  match validateDocument doc with
  | .error error => ⟨.failed error, [], []⟩
  | .ok () =>
    match desktop.parseUrl rawUrl with
    | .error err => ⟨.failed ("bad URL " ++ rawUrl ++ ": " ++ err), [], []⟩
    | .ok parsed =>
      match decision with
      | .openWith target _ _ => executeOpen desktop target doc.defaultTarget rawUrl parsed
      | .ask candidates _ => spawnAsk [] candidates rawUrl doc.defaultTarget
      | .allow _ => ⟨.skipped, [], []⟩
      | .block _ => ⟨.skipped, [], []⟩

/-! ## The arms of `execute` -/

section Arms

variable {desktop : Desktop} {target defaultTarget : BrowserTarget} (rawUrl : String)
  {parsed : String}

/-- The primary is installed and its launch succeeds. -/
theorem executeOpen_launched
    (hinstalled : target.browser ∈ installedBrowserIds desktop.installedBrowsers)
    (hok : desktop.launch 0 target parsed = .ok ()) :
    executeOpen desktop target defaultTarget rawUrl parsed =
      ⟨.launched target, [⟨target, parsed, true⟩], []⟩ := by
  simp only [executeOpen, planOpenTarget, if_pos hinstalled, openWithDefaultFallback,
    validateTarget, hok]
  split <;> rfl

/-- The primary is installed, its launch fails, and the default is the same browser. -/
theorem executeOpen_same {e : String}
    (hinstalled : target.browser ∈ installedBrowserIds desktop.installedBrowsers)
    (herr : desktop.launch 0 target parsed = .error e)
    (hsame : target.browser = defaultTarget.browser) :
    ∃ err, executeOpen desktop target defaultTarget rawUrl parsed =
      ⟨.failed err, [⟨target, parsed, false⟩], []⟩ := by
  simp only [executeOpen, planOpenTarget, if_pos hinstalled, openWithDefaultFallback,
    validateTarget, herr, if_pos (Or.inr hsame), if_pos hsame]
  exact ⟨_, rfl⟩

/-- The primary is installed, its launch fails, and the default is launched in its place. -/
theorem executeOpen_fallback {e : String}
    (hinstalled : target.browser ∈ installedBrowserIds desktop.installedBrowsers)
    (herr : desktop.launch 0 target parsed = .error e)
    (hne : target.browser ≠ defaultTarget.browser)
    (hdefault : defaultTarget.browser ∈ installedBrowserIds desktop.installedBrowsers) :
    (desktop.launch 1 defaultTarget parsed = .ok () ∧
      executeOpen desktop target defaultTarget rawUrl parsed =
        ⟨.launched defaultTarget, [⟨target, parsed, false⟩, ⟨defaultTarget, parsed, true⟩], []⟩) ∨
    ∃ e' err, desktop.launch 1 defaultTarget parsed = .error e' ∧
      executeOpen desktop target defaultTarget rawUrl parsed =
        ⟨.failed err, [⟨target, parsed, false⟩, ⟨defaultTarget, parsed, false⟩], []⟩ := by
  simp only [executeOpen, planOpenTarget, if_pos hinstalled, openWithDefaultFallback,
    validateTarget, herr, if_pos (Or.inl hdefault), if_neg hne]
  cases desktop.launch 1 defaultTarget parsed with
  | ok _ => exact .inl ⟨rfl, rfl⟩
  | error e' => exact .inr ⟨e', _, rfl, rfl⟩

/-- The primary is installed, its launch fails, and the default is another browser that is not
installed. -/
theorem executeOpen_alone {e : String}
    (hinstalled : target.browser ∈ installedBrowserIds desktop.installedBrowsers)
    (herr : desktop.launch 0 target parsed = .error e)
    (hne : target.browser ≠ defaultTarget.browser)
    (hmissing : defaultTarget.browser ∉ installedBrowserIds desktop.installedBrowsers) :
    executeOpen desktop target defaultTarget rawUrl parsed =
      spawnAsk [⟨target, parsed, false⟩] [] rawUrl defaultTarget := by
  have hno : ¬ (defaultTarget.browser ∈ installedBrowserIds desktop.installedBrowsers ∨
      target.browser = defaultTarget.browser) := not_or.mpr ⟨hmissing, hne⟩
  simp only [executeOpen, planOpenTarget, if_pos hinstalled, if_neg hno, herr]

variable (parsed) in
/-- The primary is not installed, and another default is. -/
theorem executeOpen_default
    (hmissing : target.browser ∉ installedBrowserIds desktop.installedBrowsers)
    (hdefault : target.browser ≠ defaultTarget.browser ∧
      defaultTarget.browser ∈ installedBrowserIds desktop.installedBrowsers) :
    executeOpen desktop target defaultTarget rawUrl parsed =
        ⟨.launched defaultTarget, [⟨defaultTarget, parsed, true⟩], []⟩ ∨
      executeOpen desktop target defaultTarget rawUrl parsed =
        spawnAsk [⟨defaultTarget, parsed, false⟩] [] rawUrl defaultTarget := by
  simp only [executeOpen, planOpenTarget, if_neg hmissing, if_pos hdefault]
  cases desktop.launch 0 defaultTarget parsed with
  | ok _ => exact .inl rfl
  | error _ => exact .inr rfl

theorem executeOpen_ask
    (hmissing : target.browser ∉ installedBrowserIds desktop.installedBrowsers)
    (hno : ¬ (target.browser ≠ defaultTarget.browser ∧
      defaultTarget.browser ∈ installedBrowserIds desktop.installedBrowsers)) :
    executeOpen desktop target defaultTarget rawUrl parsed =
      spawnAsk [] [] rawUrl defaultTarget := by
  simp only [executeOpen, planOpenTarget, if_neg hmissing, if_neg hno]

end Arms

/-! ## What becomes of an Open decision -/

section Open

variable (desktop : Desktop) (target defaultTarget : BrowserTarget) (rawUrl parsed : String)

/-- The URL was opened in the primary or the default browser by the last of the calls, or handed to
the Ask flow; the calls go to the primary and then to a default that is another browser, the Ask
flow comes after failed calls only, and at most one call succeeds. -/
structure NeverDropped (e : Execution) : Prop where
  outcome : (∃ t, e.outcome = .launched t ∧ (t = target ∨ t = defaultTarget) ∧
      e.calls.getLast? = some ⟨t, parsed, true⟩ ∧ e.asks = []) ∨
    (e.outcome = .pending ∧ e.asks = [⟨[], rawUrl, defaultTarget⟩] ∧
      ∀ c ∈ e.calls, c.ok = false)
  order : (e.calls.map Launch.target).Sublist
    (if target.browser = defaultTarget.browser then [target] else [target, defaultTarget])
  launches : e.calls.length ≤ 2
  successes : (e.calls.filter Launch.ok).length ≤ 1

/-- The primary is installed and its launch fails, and the default is the same browser, or it is
installed too and its launch fails as well. -/
structure LaunchesFail : Prop where
  installed : target.browser ∈ installedBrowserIds desktop.installedBrowsers
  primary : ∃ e, desktop.launch 0 target parsed = .error e
  fallback : target.browser = defaultTarget.browser ∨
    defaultTarget.browser ∈ installedBrowserIds desktop.installedBrowsers ∧
      ∃ e, desktop.launch 1 defaultTarget parsed = .error e

variable {desktop} {target} {defaultTarget} {rawUrl} {parsed}

theorem not_neverDropped_failed {err : String} {calls : List Launch} {asks : List AskRequest} :
    ¬ NeverDropped target defaultTarget rawUrl parsed ⟨.failed err, calls, asks⟩ := by
  rintro ⟨⟨t, houtcome, -⟩ | ⟨houtcome, -⟩, -⟩ <;> cases houtcome

theorem neverDropped_primary :
    NeverDropped target defaultTarget rawUrl parsed
      ⟨.launched target, [⟨target, parsed, true⟩], []⟩ where
  outcome := .inl ⟨target, rfl, .inl rfl, rfl, rfl⟩
  order := by split <;> simp
  launches := by simp
  successes := by simp

/-- A launch of the default browser, after a failed one of the primary or without one. -/
theorem neverDropped_default (hne : target.browser ≠ defaultTarget.browser) {calls : List Launch}
    (hcalls : calls = [] ∨ calls = [⟨target, parsed, false⟩]) :
    NeverDropped target defaultTarget rawUrl parsed
      ⟨.launched defaultTarget, calls ++ [⟨defaultTarget, parsed, true⟩], []⟩ where
  outcome := .inl ⟨defaultTarget, rfl, .inr rfl, List.getLast?_concat, rfl⟩
  order := by rcases hcalls with rfl | rfl <;> simp [hne]
  launches := by rcases hcalls with rfl | rfl <;> simp
  successes := by rcases hcalls with rfl | rfl <;> simp

theorem neverDropped_ask {calls : List Launch} (hfailed : ∀ c ∈ calls, c.ok = false)
    (horder : calls = [] ∨ calls = [⟨target, parsed, false⟩] ∨
      target.browser ≠ defaultTarget.browser ∧ calls = [⟨defaultTarget, parsed, false⟩]) :
    NeverDropped target defaultTarget rawUrl parsed (spawnAsk calls [] rawUrl defaultTarget) where
  outcome := .inr ⟨rfl, rfl, hfailed⟩
  order := by
    rcases horder with rfl | rfl | ⟨hne, rfl⟩
    · simp [spawnAsk]
    · simp only [spawnAsk, List.map_cons, List.map_nil]
      split <;> simp
    · simp [spawnAsk, hne]
  launches := by rcases horder with rfl | rfl | ⟨-, rfl⟩ <;> simp [spawnAsk]
  successes := by rcases horder with rfl | rfl | ⟨-, rfl⟩ <;> simp [spawnAsk]

/-- A failed launch of the primary. -/
theorem neverDropped_failed_iff {e : String}
    (hinstalled : target.browser ∈ installedBrowserIds desktop.installedBrowsers)
    (herr : desktop.launch 0 target parsed = .error e) :
    NeverDropped target defaultTarget rawUrl parsed
        (executeOpen desktop target defaultTarget rawUrl parsed) ↔
      ¬ LaunchesFail desktop target defaultTarget parsed := by
  by_cases hsame : target.browser = defaultTarget.browser
  · obtain ⟨err, hrun⟩ := executeOpen_same rawUrl hinstalled herr hsame
    rw [hrun]
    exact iff_of_false not_neverDropped_failed (not_not_intro ⟨hinstalled, ⟨e, herr⟩, .inl hsame⟩)
  · by_cases hdefault : defaultTarget.browser ∈ installedBrowserIds desktop.installedBrowsers
    · rcases executeOpen_fallback rawUrl hinstalled herr hsame hdefault with
        ⟨hok, hrun⟩ | ⟨e', err, herr', hrun⟩
      · rw [hrun]
        refine iff_of_true (neverDropped_default hsame (.inr rfl)) fun h => ?_
        obtain heq | ⟨-, e', he'⟩ := h.fallback
        · exact hsame heq
        · cases he'.symm.trans hok
      · rw [hrun]
        exact iff_of_false not_neverDropped_failed
          (not_not_intro ⟨hinstalled, ⟨e, herr⟩, .inr ⟨hdefault, e', herr'⟩⟩)
    · rw [executeOpen_alone rawUrl hinstalled herr hsame hdefault]
      refine iff_of_true (neverDropped_ask (by simp) (.inr (.inl rfl))) fun h => ?_
      exact h.fallback.elim hsame fun hfallback => hdefault hfallback.1

/-- A primary that is not installed. -/
theorem neverDropped_missing
    (hmissing : target.browser ∉ installedBrowserIds desktop.installedBrowsers) :
    NeverDropped target defaultTarget rawUrl parsed
      (executeOpen desktop target defaultTarget rawUrl parsed) := by
  by_cases hdefault : target.browser ≠ defaultTarget.browser ∧
      defaultTarget.browser ∈ installedBrowserIds desktop.installedBrowsers
  · rcases executeOpen_default rawUrl parsed hmissing hdefault with
      hrun | hrun
    · rw [hrun]
      exact neverDropped_default hdefault.1 (.inl rfl)
    · rw [hrun]
      exact neverDropped_ask (by simp) (.inr (.inr ⟨hdefault.1, rfl⟩))
  · rw [executeOpen_ask rawUrl hmissing hdefault]
    exact neverDropped_ask (by simp) (.inl rfl)

end Open

/-- **Open decisions.** A parseable URL whose decision is Open is launched in the primary or the
default browser or handed to the Ask flow, in this order and at most once, exactly when not all the
launches fail that stand in for each other. -/
theorem never_dropped_iff {desktop : Desktop} {rawUrl parsed : String}
    (hparse : desktop.parseUrl rawUrl = .ok parsed) (doc : ConfigDocument) (target : BrowserTarget)
    (matchedRule : Option RuleId) (reason : String) :
    NeverDropped target doc.defaultTarget rawUrl parsed
        (execute desktop doc (.openWith target matchedRule reason) rawUrl) ↔
      ¬ LaunchesFail desktop target doc.defaultTarget parsed := by
  simp only [execute, validateDocument, hparse]
  by_cases hinstalled : target.browser ∈ installedBrowserIds desktop.installedBrowsers
  · cases hlaunch : desktop.launch 0 target parsed with
    | ok _ =>
      rw [executeOpen_launched rawUrl hinstalled hlaunch]
      refine iff_of_true neverDropped_primary fun h => ?_
      obtain ⟨e, he⟩ := h.primary
      cases he.symm.trans hlaunch
    | error e => exact neverDropped_failed_iff hinstalled hlaunch
  · exact iff_of_true (neverDropped_missing hinstalled) fun h => hinstalled h.installed

/-- A desktop with Chrome and Safari on which the first `failures` launches fail. -/
def failingDesktop (failures : Nat) : Desktop where
  parseUrl s := .ok s
  installedBrowsers := .ok
    [⟨"chrome", "Google Chrome", .chromium, "/chrome", none, none⟩,
      ⟨"safari", "Safari", .safari, "/safari", none, none⟩]
  launch n _ _ := if n < failures then .error "cannot execute" else .ok ()

/-- A rule for Chrome has won, and the default is Safari. -/
def openInChrome (failures : Nat) : Execution :=
  execute (failingDesktop failures) (ConfigDocument.withDefault (BrowserTarget.new "safari"))
    (.openWith (BrowserTarget.new "chrome") none "rule") "https://a.com"

theorem never_dropped_iff_fallback :
    NeverDropped (BrowserTarget.new "chrome") (BrowserTarget.new "safari") "https://a.com"
      "https://a.com" (openInChrome 1) := by
  have hparse : (failingDesktop 1).parseUrl "https://a.com" = .ok "https://a.com" := rfl
  refine (never_dropped_iff hparse (ConfigDocument.withDefault (BrowserTarget.new "safari"))
    (BrowserTarget.new "chrome") none "rule").2 ?_
  rintro ⟨-, -, hsame | ⟨-, e, he⟩⟩
  · exact absurd hsame (by decide)
  · cases he

/-- Chrome and Safari are both installed and neither starts: the URL ends in `Failed`. -/
theorem both_launches_fail :
    (openInChrome 2).outcome = .failed ("primary launch failed (cannot execute); " ++
      "default fallback also failed (cannot execute)") ∧
    ¬ NeverDropped (BrowserTarget.new "chrome") (BrowserTarget.new "safari") "https://a.com"
      "https://a.com" (openInChrome 2) := by
  have houtcome : (openInChrome 2).outcome = .failed ("primary launch failed (cannot execute); " ++
      "default fallback also failed (cannot execute)") := by decide
  refine ⟨houtcome, ?_⟩
  rintro ⟨⟨t, h, -⟩ | ⟨h, -⟩, -⟩
  · cases houtcome.symm.trans h
  · cases houtcome.symm.trans h

end LinkPilot
