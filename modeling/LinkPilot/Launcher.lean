import LinkPilot.Dispatch

/-!
# Private windows

Model of `MacUrlLauncher::open` of `crates/platform-mac/src/launcher.rs`, and of what a run of
`execute` or of the headless `RouteOpen` starts through it.

Principal results:

* `commandFor_isPrivate_iff` — a started process has its family's private-window argument exactly
  when the target asks for it and the browser is of the Chromium or the Firefox family.
* `private_intent_iff` — an incognito decision is carried out in private windows only exactly when
  no launch that is reached starts a browser of another family, or a default that is not private.
* `arc_discards_incognito` — a rule for a private Arc window opens an ordinary one, as does a rule
  for a private Chrome window that falls back to Safari.
-/

set_option autoImplicit false

namespace LinkPilot

/-! ## `launcher.rs` -/

/-- `std::process::Command`, as far as the launcher fills it. -/
structure Command where
  program : String
  args : List String
  deriving DecidableEq, Repr

/-- A browser process that was started with the URL. -/
structure Started where
  browser : InstalledBrowser
  command : Command
  deriving DecidableEq, Repr

/-- What one call of the launcher returns, and what it starts: the process that is given the URL,
and the `open -b` that only activates the browser. -/
structure MacLaunch where
  result : Except String Unit
  started : Option Started
  activated : Option Command

/-- `open -a <display name> <url>`. -/
def openByName (browser : InstalledBrowser) (url : String) : Command :=
  ⟨"/usr/bin/open", ["-a", browser.displayName, url]⟩

/-- The command that `MacUrlLauncher::open` builds for a browser. -/
def commandFor (browser : InstalledBrowser) (target : BrowserTarget) (url : String) : Command :=
  match browser.kind with
  | .chromium =>
    ⟨browser.executable,
      (target.profile.map ("--profile-directory=" ++ ·)).toList ++
        (if target.newWindow then ["--new-window"] else []) ++
        (if target.incognito then ["--incognito"] else []) ++ [url]⟩
  | .arc => openByName browser url
  | .firefox =>
    ⟨browser.executable,
      (match target.profile with
        | some profile => ["-P", profile]
        | none => []) ++
        (if target.incognito then ["-private-window", url]
        else if target.newWindow then ["-new-window", url]
        else ["-url", url])⟩
  | .safari => openByName browser url
  | .unknown => openByName browser url

/-- `activate_by_bundle_id`. -/
def activateByBundleId (bundleId : String) : Command :=
  ⟨"/usr/bin/open", ["-b", bundleId]⟩

/-- `MacUrlLauncher::open`, with what `installed_browsers` and the spawn of a command give. -/
def MacUrlLauncher.openUrl (inventory : Except String (List InstalledBrowser))
    (spawn : Command → Except String Unit) (target : BrowserTarget) (url : String) : MacLaunch :=
  match inventory with
  | .error e => ⟨.error e, none, none⟩
  | .ok browsers =>
    match browsers.find? (·.id = target.browser) with
    | none =>
      ⟨.error ("browser '" ++ target.browser ++ "' is not installed on this Mac"), none, none⟩
    | some browser =>
      let cmd := commandFor browser target url
      match spawn cmd with
      | .error e => ⟨.error e, none, none⟩
      | .ok () => ⟨.ok (), some ⟨browser, cmd⟩, browser.platformAppId.map activateByBundleId⟩

/-! ## A Mac with LinkPilot on it -/

/-- The inventory when `execute` plans, and the inventory and the process table at the `n`-th
launcher call. -/
structure MacHost where
  parseUrl : String → Except String String
  inventory : Except String (List InstalledBrowser)
  scan : Nat → Except String (List InstalledBrowser)
  spawn : Nat → Command → Except String Unit

namespace MacHost

/-- The `n`-th call of the launcher. -/
def openAt (mac : MacHost) (n : Nat) (target : BrowserTarget) (url : String) : MacLaunch :=
  MacUrlLauncher.openUrl (mac.scan n) (mac.spawn n) target url

/-- The surroundings of the GUI's `execute`. -/
def desktop (mac : MacHost) : Desktop where
  parseUrl := mac.parseUrl
  installedBrowsers := mac.inventory
  launch n target url := (mac.openAt n target url).result

/-- The surroundings of the headless daemon, whose `RouteOpen` calls the launcher once, with the
URL that it has parsed. -/
def headless (mac : MacHost) (host : Host) : Host :=
  { host with
    urlText := fun url => (mac.parseUrl url).toOption.getD url
    launch := fun target url => (mac.openAt 0 target url).result }

/-- The processes that the launcher calls start with the URL, from the `n`-th call on. -/
def startedFrom (mac : MacHost) : Nat → List Launch → List Started
  | _, [] => []
  | n, call :: calls =>
    (mac.openAt n call.target call.url).started.toList ++ mac.startedFrom (n + 1) calls

end MacHost

/-! ## Private windows -/

/-- The process has the private-window argument of its family. There is none to give to
`open -a`. -/
def Started.IsPrivate (p : Started) : Prop :=
  match p.browser.kind with
  | .chromium => "--incognito" ∈ p.command.args.dropLast
  | .firefox => p.command.args.dropLast.getLast? = some "-private-window"
  | .arc => False
  | .safari => False
  | .unknown => False

/-- The families that have a private-window argument. -/
def BrowserKind.HasPrivateArgument (kind : BrowserKind) : Prop :=
  kind = .chromium ∨ kind = .firefox

/-- Everything that the calls start is private. -/
def KeptPrivate (mac : MacHost) (calls : List Launch) : Prop :=
  ∀ p ∈ mac.startedFrom 0 calls, p.IsPrivate

theorem profileArgument_ne_incognito (profile : String) :
    "--profile-directory=" ++ profile ≠ "--incognito" := by
  intro h
  have hlist := congrArg String.toList h
  rw [String.toList_append] at hlist
  cases hlist

theorem commandFor_isPrivate_iff {browser : InstalledBrowser} {target : BrowserTarget}
    {url : String} :
    Started.IsPrivate ⟨browser, commandFor browser target url⟩ ↔
      target.incognito = true ∧ browser.kind.HasPrivateArgument := by
  unfold Started.IsPrivate BrowserKind.HasPrivateArgument commandFor
  cases hkind : browser.kind with
  | chromium =>
    have hprofile : "--incognito" ∉ (target.profile.map ("--profile-directory=" ++ ·)).toList := by
      cases target.profile with
      | none => simp
      | some profile => simpa using (profileArgument_ne_incognito profile).symm
    cases target.incognito <;> cases target.newWindow <;> simp [hprofile]
  | firefox =>
    cases target.incognito <;> cases target.newWindow <;> cases target.profile <;> simp
  | arc => simp
  | safari => simp
  | unknown => simp

/-- At the `n`-th call the launcher finds a browser for the target and starts it, and the target
does not ask for a private window or the browser's family has no argument for one. -/
def Leaks (mac : MacHost) (n : Nat) (target : BrowserTarget) (url : String) : Prop :=
  ∃ browsers browser, mac.scan n = .ok browsers ∧
    browsers.find? (·.id = target.browser) = some browser ∧
    mac.spawn n (commandFor browser target url) = .ok () ∧
    ¬ (target.incognito = true ∧ browser.kind.HasPrivateArgument)

section Started

variable {mac : MacHost} {n : Nat} {target : BrowserTarget} {url : String}

theorem mem_started_iff {p : Started} :
    p ∈ (mac.openAt n target url).started.toList ↔
      ∃ browsers browser, mac.scan n = .ok browsers ∧
        browsers.find? (·.id = target.browser) = some browser ∧
        mac.spawn n (commandFor browser target url) = .ok () ∧
        p = ⟨browser, commandFor browser target url⟩ := by
  unfold MacHost.openAt MacUrlLauncher.openUrl
  cases mac.scan n with
  | error e => simp
  | ok browsers =>
    cases hfind : browsers.find? (·.id = target.browser) with
    | none => simp [hfind]
    | some browser =>
      cases hspawn : mac.spawn n (commandFor browser target url) with
      | error e => simp [hfind, hspawn]
      | ok _ =>
        simp only [hfind, hspawn, Option.toList_some, List.mem_singleton]
        constructor
        · rintro rfl
          exact ⟨browsers, browser, rfl, hfind, hspawn, rfl⟩
        · rintro ⟨_, b, hb, hfind', -, rfl⟩
          cases hb
          cases hfind.symm.trans hfind'
          rfl

/-- One call of the launcher. -/
theorem started_private_iff :
    (∀ p ∈ (mac.openAt n target url).started.toList, p.IsPrivate) ↔ ¬ Leaks mac n target url := by
  simp only [mem_started_iff, Leaks]
  constructor
  · rintro h ⟨browsers, browser, hscan, hfind, hspawn, hnot⟩
    exact hnot (commandFor_isPrivate_iff.mp (h _ ⟨browsers, browser, hscan, hfind, hspawn, rfl⟩))
  · rintro h p ⟨browsers, browser, hscan, hfind, hspawn, rfl⟩
    refine commandFor_isPrivate_iff.mpr (by_contra fun hnot => h ?_)
    exact ⟨browsers, browser, hscan, hfind, hspawn, hnot⟩

theorem not_leaks_of_error {e : String} (h : (mac.openAt n target url).result = .error e) :
    ¬ Leaks mac n target url := by
  rintro ⟨browsers, browser, hscan, hfind, hspawn, -⟩
  simp [MacHost.openAt, MacUrlLauncher.openUrl, hscan, hfind, hspawn] at h

theorem keptPrivate_nil : KeptPrivate mac [] := by
  simp [KeptPrivate, MacHost.startedFrom]

theorem keptPrivate_one {ok : Bool} :
    KeptPrivate mac [⟨target, url, ok⟩] ↔ ¬ Leaks mac 0 target url := by
  simp only [KeptPrivate, MacHost.startedFrom, List.append_nil]
  exact started_private_iff

theorem keptPrivate_two {ok ok' : Bool} {other : BrowserTarget} :
    KeptPrivate mac [⟨target, url, ok⟩, ⟨other, url, ok'⟩] ↔
      ¬ Leaks mac 0 target url ∧ ¬ Leaks mac 1 other url := by
  simp only [KeptPrivate, MacHost.startedFrom, List.append_nil, List.mem_append, or_imp,
    forall_and, started_private_iff, Nat.zero_add]

end Started

/-! ## What an incognito decision opens -/

section Open

variable (mac : MacHost) (target defaultTarget : BrowserTarget) (url : String)

/-- No launch that `execute` comes to is of a browser without a private window. The default is
launched first when the primary is not installed, and second when the primary's launch fails. -/
structure KeepsPrivate : Prop where
  primary : target.browser ∈ installedBrowserIds mac.inventory → ¬ Leaks mac 0 target url
  planned : target.browser ∉ installedBrowserIds mac.inventory →
    target.browser ≠ defaultTarget.browser →
    defaultTarget.browser ∈ installedBrowserIds mac.inventory → ¬ Leaks mac 0 defaultTarget url
  fallback : target.browser ∈ installedBrowserIds mac.inventory →
    (∃ e, (mac.openAt 0 target url).result = .error e) →
    target.browser ≠ defaultTarget.browser →
    defaultTarget.browser ∈ installedBrowserIds mac.inventory → ¬ Leaks mac 1 defaultTarget url

variable {mac} {target} {defaultTarget} {url}

theorem keptPrivate_installed (rawUrl : String)
    (hinstalled : target.browser ∈ installedBrowserIds mac.inventory) :
    KeptPrivate mac (executeOpen mac.desktop target defaultTarget rawUrl url).calls ↔
      KeepsPrivate mac target defaultTarget url := by
  have hno : target.browser ∉ installedBrowserIds mac.inventory → False := fun h => h hinstalled
  cases hresult : mac.desktop.launch 0 target url with
  | ok _ =>
    rw [executeOpen_launched rawUrl hinstalled hresult, keptPrivate_one]
    refine ⟨fun h => ⟨fun _ => h, fun hmissing => (hno hmissing).elim, ?_⟩,
      fun h => h.primary hinstalled⟩
    rintro - ⟨e, he⟩
    cases he.symm.trans hresult
  | error e =>
    have hprimary : ¬ Leaks mac 0 target url := not_leaks_of_error hresult
    by_cases hsame : target.browser = defaultTarget.browser
    · obtain ⟨err, hrun⟩ := executeOpen_same rawUrl hinstalled hresult hsame
      rw [hrun, keptPrivate_one]
      exact iff_of_true hprimary ⟨fun _ => hprimary, fun hmissing => (hno hmissing).elim,
        fun _ _ hne _ => absurd hsame hne⟩
    · by_cases hdefault : defaultTarget.browser ∈ installedBrowserIds mac.inventory
      · have hfallback : (¬ Leaks mac 0 target url ∧ ¬ Leaks mac 1 defaultTarget url) ↔
            KeepsPrivate mac target defaultTarget url :=
          ⟨fun h => ⟨fun _ => h.1, fun hmissing => (hno hmissing).elim, fun _ _ _ _ => h.2⟩,
            fun h => ⟨hprimary, h.fallback hinstalled ⟨e, hresult⟩ hsame hdefault⟩⟩
        rcases executeOpen_fallback rawUrl hinstalled hresult hsame hdefault with
          ⟨-, hrun⟩ | ⟨_, _, -, hrun⟩
        · rw [hrun, keptPrivate_two]
          exact hfallback
        · rw [hrun, keptPrivate_two]
          exact hfallback
      · rw [executeOpen_alone rawUrl hinstalled hresult hsame hdefault]
        exact iff_of_true (keptPrivate_one.mpr hprimary) ⟨fun _ => hprimary,
          fun hmissing => (hno hmissing).elim, fun _ _ _ hin => absurd hin hdefault⟩

theorem keptPrivate_missing (rawUrl : String)
    (hmissing : target.browser ∉ installedBrowserIds mac.inventory) :
    KeptPrivate mac (executeOpen mac.desktop target defaultTarget rawUrl url).calls ↔
      KeepsPrivate mac target defaultTarget url := by
  have hids : target.browser ∉ installedBrowserIds mac.desktop.installedBrowsers := hmissing
  by_cases hother : target.browser ≠ defaultTarget.browser ∧
      defaultTarget.browser ∈ installedBrowserIds mac.desktop.installedBrowsers
  · have hplanned : ¬ Leaks mac 0 defaultTarget url ↔ KeepsPrivate mac target defaultTarget url :=
      ⟨fun h => ⟨fun hin => absurd hin hmissing, fun _ _ _ => h, fun hin => absurd hin hmissing⟩,
        fun h => h.planned hmissing hother.1 hother.2⟩
    rcases executeOpen_default rawUrl url hids hother with hrun | hrun
    · rw [hrun, keptPrivate_one]
      exact hplanned
    · rw [hrun, spawnAsk, keptPrivate_one]
      exact hplanned
  · rw [executeOpen_ask rawUrl hids hother]
    exact iff_of_true keptPrivate_nil ⟨fun hin => absurd hin hmissing,
      fun _ hne hin => absurd ⟨hne, hin⟩ hother, fun hin => absurd hin hmissing⟩

end Open

/-- **Private intent.** Carrying out an Open decision with an incognito target starts private
windows only, exactly when none of the launches that the plan comes to is of a browser that has no
private-window argument or of a default without the flag. For the headless daemon, which launches
the primary only, this is the primary's launch. -/
theorem private_intent_iff {mac : MacHost} {rawUrl parsed : String}
    (hparse : mac.parseUrl rawUrl = .ok parsed) {host : Host} {u : Url}
    (hurl : host.urlParse rawUrl = some u) (doc : ConfigDocument) (target : BrowserTarget)
    (matchedRule : Option RuleId) (reason requestId : String) :
    (KeptPrivate mac (execute mac.desktop doc (.openWith target matchedRule reason) rawUrl).calls ↔
      KeepsPrivate mac target doc.defaultTarget parsed) ∧
    (KeptPrivate mac
        (openDecision (mac.headless host) requestId rawUrl (.openWith target matchedRule reason)).2 ↔
      ¬ Leaks mac 0 target parsed) := by
  constructor
  · have hdesktop : mac.desktop.parseUrl rawUrl = .ok parsed := hparse
    simp only [execute, validateDocument, hdesktop]
    by_cases hinstalled : target.browser ∈ installedBrowserIds mac.inventory
    · exact keptPrivate_installed rawUrl hinstalled
    · exact keptPrivate_missing rawUrl hinstalled
  · have hheadless : (mac.headless host).urlParse rawUrl = some u := hurl
    have htext : (mac.headless host).urlText rawUrl = parsed := by
      simp [MacHost.headless, hparse, Except.toOption]
    simp only [openDecision, hheadless, htext]
    cases (mac.headless host).launch target parsed with
    | ok _ => exact keptPrivate_one
    | error _ => exact keptPrivate_one

/-- A Mac with Arc, Chrome and Safari on which the commands of `broken` cannot be started. -/
def macWith (broken : List String) : MacHost where
  parseUrl s := .ok s
  inventory := .ok browsers
  scan _ := .ok browsers
  spawn _ cmd := if cmd.program ∈ broken then .error "cannot execute" else .ok ()
where
  browsers : List InstalledBrowser :=
    [⟨"arc", "Arc", .arc, "/arc", none, none⟩,
      ⟨"chrome", "Google Chrome", .chromium, "/chrome", none, none⟩,
      ⟨"safari", "Safari", .safari, "/safari", none, none⟩]

/-- A private window of a browser. -/
def privateWindow (browser : BrowserId) : BrowserTarget :=
  { BrowserTarget.new browser with incognito := true }

/-- What a rule for a private window of a browser starts, with Safari as the default. -/
def startedFor (mac : MacHost) (browser : BrowserId) : List Started :=
  mac.startedFrom 0
    (execute mac.desktop (ConfigDocument.withDefault (BrowserTarget.new "safari"))
      (.openWith (privateWindow browser) none "rule") "https://a.com/").calls

/-- A daemon whose URL parser takes every string. -/
def anyUrlHost : Host :=
  { Headless.bareHost with urlParse := fun s => some ⟨none, s⟩ }

theorem private_intent_iff_chrome :
    KeptPrivate (macWith []) (execute (macWith []).desktop
      (ConfigDocument.withDefault (BrowserTarget.new "safari"))
      (.openWith (privateWindow "chrome") none "rule") "https://a.com/").calls := by
  have hparse : (macWith []).parseUrl "https://a.com/" = .ok "https://a.com/" := rfl
  have hurl : anyUrlHost.urlParse "https://a.com/" = some ⟨none, "https://a.com/"⟩ := rfl
  have hprimary : ¬ Leaks (macWith []) 0 (privateWindow "chrome") "https://a.com/" := by
    rintro ⟨browsers, browser, hscan, hfind, -, hnot⟩
    cases hscan
    simp [privateWindow, macWith.browsers, BrowserTarget.new] at hfind
    subst hfind
    exact hnot ⟨rfl, .inl rfl⟩
  refine (private_intent_iff hparse hurl (ConfigDocument.withDefault (BrowserTarget.new "safari"))
    (privateWindow "chrome") none "rule" "r1").1.mpr ⟨fun _ => hprimary, ?_, ?_⟩
  · exact fun hmissing => absurd (by decide) hmissing
  · rintro - ⟨e, he⟩
    cases he

/-- A private Arc window is opened as an ordinary one. A private Chrome window whose launch fails
becomes an ordinary Safari window, although the fallback is not private. -/
theorem arc_discards_incognito :
    ((startedFor (macWith []) "arc").map Started.command =
        [⟨"/usr/bin/open", ["-a", "Arc", "https://a.com/"]⟩] ∧
      ¬ ∀ p ∈ startedFor (macWith []) "arc", p.IsPrivate) ∧
    (startedFor (macWith ["/chrome"]) "chrome").map Started.command =
      [⟨"/usr/bin/open", ["-a", "Safari", "https://a.com/"]⟩] ∧
    ¬ ∀ p ∈ startedFor (macWith ["/chrome"]) "chrome", p.IsPrivate := by
  have harc : startedFor (macWith []) "arc" = [⟨⟨"arc", "Arc", .arc, "/arc", none, none⟩,
      ⟨"/usr/bin/open", ["-a", "Arc", "https://a.com/"]⟩⟩] := by decide
  have hsafari : startedFor (macWith ["/chrome"]) "chrome" =
      [⟨⟨"safari", "Safari", .safari, "/safari", none, none⟩,
        ⟨"/usr/bin/open", ["-a", "Safari", "https://a.com/"]⟩⟩] := by decide
  rw [harc, hsafari]
  simp [Started.IsPrivate]

end LinkPilot
