import LinkPilot.Dispatch
import LinkPilot.Observations
import LinkPilot.Picker
import LinkPilot.ProfileOrder

/-!
# Resolving an Ask

Model of the picker thread of `apps/desktop/src-tauri/src/dispatch.rs`: `resolve_ask` with the choices
it offers, `record_ask_observation`, and the launch that `spawn_ask` makes of the pick.  The window is
a parameter: what it returns for its choices.

Principal results:

* `askSource_spec` — which targets are offered: the hidden browsers only when there is nothing else.
* `resolveAsk_spec` — what a pick comes to: the last offered target of its browser, with the picked
  profile and the target's own flags.
-/

set_option autoImplicit false

namespace LinkPilot

open Picker (PickerPick)
open Observations (Observation)

/-! ## `picker.rs` -/

/-- `PickerProfile`. -/
structure PickerProfile where
  id : String
  name : String
  email : Option String
  accentColor : Option String
  isDefault : Bool
  deriving DecidableEq, Repr

/-- `PickerChoice`, without the icon that `show_picker` adds. -/
structure PickerChoice where
  id : String
  name : String
  bundleId : Option String
  appPath : Option String
  profiles : List PickerProfile
  defaultProfileId : Option String
  deriving DecidableEq, Repr

/-! ## `dispatch.rs` -/

/-- `s.rfind(".app/")` and the text up to behind its `.app`, on the characters. -/
def cutBundle : List Char → Option (List Char)
  | [] => none
  | c :: s =>
    match cutBundle s with
    | some cut => some (c :: cut)
    | none => if ".app/".toList <+: c :: s then some ".app".toList else none

/-- `app_path_from_executable`. -/
def appPathFromExecutable (exe : String) : String :=
  match cutBundle exe.toList with
  | some cut => .ofList cut
  | none => exe

/-- What the ask finds in the inventory. -/
structure Inventory where
  installed : Except String (List InstalledBrowser)
  profiles : BrowserId → Except String (List BrowserProfile)

/-- `raw_source`: the candidates of the decision, or all that is installed. -/
def rawSource (installed : List InstalledBrowser) (candidates : List BrowserTarget) :
    List BrowserTarget :=
  if candidates = [] then installed.map fun b => .new b.id else candidates

/-- `source`: without the hidden browsers, unless nothing is left. -/
def askSource (installed : List InstalledBrowser) (candidates : List BrowserTarget)
    (disabled : List String) : List BrowserTarget :=
  let filtered := (rawSource installed candidates).filter fun t => decide (t.browser ∉ disabled)
  if filtered = [] then rawSource installed candidates else filtered

def BrowserProfile.toPicker (p : BrowserProfile) : PickerProfile :=
  ⟨p.id, p.displayName, p.email, p.accentColor, p.isDefault⟩

/-- The profiles that the window shows for a browser. -/
def visibleProfiles (inventory : Inventory) (orders : ProfileOrders) (browser : BrowserId) :
    List PickerProfile :=
  let raw := (inventory.profiles browser).toOption.getD []
  (applyProfileOrder raw (orders.get browser)).map BrowserProfile.toPicker

/-- `default_profile_id`. -/
def defaultProfileId (profiles : List PickerProfile) : Option String :=
  ((profiles.find? fun p => p.isDefault).or profiles.head?).map PickerProfile.id

/-- The choice for a target. -/
def choiceOf (inventory : Inventory) (installed : List InstalledBrowser) (orders : ProfileOrders)
    (target : BrowserTarget) : PickerChoice :=
  let info := installed.find? fun b => decide (b.id = target.browser)
  let profiles := visibleProfiles inventory orders target.browser
  { id := target.browser
    name := (info.map InstalledBrowser.displayName).getD target.browser
    bundleId := info.bind InstalledBrowser.platformAppId
    appPath := info.map fun b => appPathFromExecutable b.executable
    profiles := profiles
    defaultProfileId := defaultProfileId profiles }

/-- `target_by_id` after the loop: of targets that share a browser the map keeps the last. -/
def targetById (source : List BrowserTarget) : BrowserId → Option BrowserTarget :=
  source.foldl (fun m t => Function.update m t.browser (some t)) fun _ => none

/-- The pick's profile, if it has one, in place of the target's. -/
def BrowserTarget.pickProfile (target : BrowserTarget) (profileId : Option String) :
    BrowserTarget :=
  match profileId with
  | some p => { target with profile := some p }
  | none => target

/-- `resolve_ask`, up to the observation. -/
def resolveAsk (inventory : Inventory) (settings : Settings) (candidates : List BrowserTarget)
    (showPicker : List PickerChoice → PickerStyle → Option PickerPick) : Option BrowserTarget :=
  match inventory.installed with
  | .error _ => none
  | .ok installed =>
    let source := askSource installed candidates settings.disabledBrowsers
    if source = [] then none
    else
      let choices := source.map (choiceOf inventory installed settings.profileOrders)
      (showPicker choices settings.pickerStyle).bind fun picked =>
        (targetById source picked.browserId).map fun target => target.pickProfile picked.profileId

/-- `record_ask_observation`: what is appended to the log. -/
def askObservation (hostOf : String → Option String) (settings : Settings) (timestampMs : Nat)
    (url : String) (target : BrowserTarget) : List Observation :=
  if settings.behaviorLogEnabled then
    match hostOf url with
    | some host => [⟨timestampMs, host, none, target.browser, target.profile⟩]
    | none => []
  else []

/-- A picker thread that is over: the target, what was logged, and the launcher calls. -/
structure AskRun where
  target : Option BrowserTarget
  observations : List Observation
  calls : List Launch

/-- The thread of `spawn_ask`. -/
def runAsk (desktop : Desktop) (inventory : Inventory) (settings : Settings)
    (hostOf : String → Option String) (timestampMs : Nat) (request : AskRequest)
    (showPicker : List PickerChoice → PickerStyle → Option PickerPick) : AskRun :=
  match resolveAsk inventory settings request.candidates showPicker with
  | none => ⟨none, [], []⟩
  | some target =>
    let observations := askObservation hostOf settings timestampMs request.rawUrl target
    match desktop.parseUrl request.rawUrl with
    | .error _ => ⟨some target, observations, []⟩
    | .ok parsed =>
      ⟨some target, observations,
        (openWithDefaultFallback desktop.launch target request.defaultTarget parsed).2⟩

/-! ## What is offered -/

section Source

variable {installed : List InstalledBrowser} {candidates : List BrowserTarget}
  {disabled : List String}

/-- **What is offered.** The targets that are not hidden, in their order; or all of them, when all
are hidden. -/
theorem askSource_spec :
    ((∃ t ∈ rawSource installed candidates, t.browser ∉ disabled) ∧
      askSource installed candidates disabled =
        (rawSource installed candidates).filter fun t => decide (t.browser ∉ disabled)) ∨
    ((∀ t ∈ rawSource installed candidates, t.browser ∈ disabled) ∧
      askSource installed candidates disabled = rawSource installed candidates) := by
  unfold askSource
  by_cases hnone : (rawSource installed candidates).filter
      (fun t => decide (t.browser ∉ disabled)) = []
  · refine .inr ⟨fun t ht => ?_, if_pos hnone⟩
    have := List.filter_eq_nil_iff.mp hnone t ht
    simpa using this
  · obtain ⟨t, ht⟩ := List.exists_mem_of_ne_nil _ hnone
    obtain ⟨hmem, hvisible⟩ := List.mem_filter.mp ht
    exact .inl ⟨⟨t, hmem, of_decide_eq_true hvisible⟩, if_neg hnone⟩

theorem askSource_subset :
    ∀ t ∈ askSource installed candidates disabled, t ∈ rawSource installed candidates := by
  intro t ht
  rcases askSource_spec with ⟨-, h⟩ | ⟨-, h⟩
  · rw [h] at ht
    exact (List.mem_filter.mp ht).1
  · rwa [h] at ht

/-- A hidden browser is offered only when every browser is hidden. -/
theorem hidden_of_askSource {t : BrowserTarget}
    (ht : t ∈ askSource installed candidates disabled) (hhidden : t.browser ∈ disabled) :
    ∀ t' ∈ rawSource installed candidates, t'.browser ∈ disabled := by
  rcases askSource_spec with ⟨-, h⟩ | ⟨hall, -⟩
  · rw [h] at ht
    exact absurd hhidden (of_decide_eq_true (List.mem_filter.mp ht).2)
  · exact hall

end Source

/-! ## What a pick comes to -/

/-- The map holds the last target of a browser. -/
theorem targetById_eq (source : List BrowserTarget) (id : BrowserId) :
    targetById source id = source.reverse.find? fun t => decide (t.browser = id) := by
  unfold targetById
  induction source using List.reverseRecOn with
  | nil => rfl
  | append_singleton source t ih =>
    rw [List.foldl_append, List.reverse_append, List.foldl_cons, List.foldl_nil,
      Function.update_apply]
    by_cases h : id = t.browser
    · rw [if_pos h]
      simp [h]
    · rw [if_neg h, ih]
      simp [Ne.symm h]

/-- The last target of a browser, cut out of what is offered. -/
theorem targetById_eq_some {source : List BrowserTarget} {id : BrowserId} {t : BrowserTarget}
    (h : targetById source id = some t) :
    t.browser = id ∧ ∃ before after, source = before ++ t :: after ∧
      ∀ t' ∈ after, t'.browser ≠ id := by
  rw [targetById_eq, List.find?_eq_some_iff_append] at h
  obtain ⟨hid, before, after, hsource, hnone⟩ := h
  refine ⟨of_decide_eq_true hid, after.reverse, before.reverse, ?_, fun t' ht' => ?_⟩
  · rw [← List.reverse_reverse source, hsource]
    simp
  · have := hnone t' (List.mem_reverse.mp ht')
    simpa using this

@[simp] theorem pickProfile_browser (target : BrowserTarget) (profileId : Option String) :
    (target.pickProfile profileId).browser = target.browser := by
  cases profileId <;> rfl

@[simp] theorem pickProfile_profile (target : BrowserTarget) (profileId : Option String) :
    (target.pickProfile profileId).profile = profileId.or target.profile := by
  cases profileId <;> rfl

/-- The target `t` that a pick was resolved to: offered as `last` behind any other target of the
browser, with the picked profile or else its own. -/
structure ResolvedTo (source : List BrowserTarget) (picked : PickerPick) (t : BrowserTarget) :
    Prop where
  browser : t.browser = picked.browserId
  offered : ∃ before last after, source = before ++ last :: after ∧
    (∀ t' ∈ after, t'.browser ≠ t.browser) ∧ last.browser = t.browser ∧
    t = { last with profile := picked.profileId.or last.profile }

/-- **What a pick comes to.** -/
theorem resolveAsk_spec {inventory : Inventory} {settings : Settings}
    {candidates : List BrowserTarget}
    {showPicker : List PickerChoice → PickerStyle → Option PickerPick} {t : BrowserTarget}
    (h : resolveAsk inventory settings candidates showPicker = some t) :
    ∃ installed picked, inventory.installed = .ok installed ∧
      showPicker ((askSource installed candidates settings.disabledBrowsers).map
        (choiceOf inventory installed settings.profileOrders)) settings.pickerStyle = some picked ∧
      ResolvedTo (askSource installed candidates settings.disabledBrowsers) picked t := by
  unfold resolveAsk at h
  split at h
  · cases h
  · rename_i installed hinstalled
    simp only at h
    split at h
    · cases h
    · obtain ⟨picked, hpicked, h⟩ := Option.bind_eq_some_iff.mp h
      obtain ⟨last, hlast, rfl⟩ := Option.map_eq_some_iff.mp h
      obtain ⟨hid, before, after, hsource, hafter⟩ := targetById_eq_some hlast
      refine ⟨installed, picked, hinstalled, hpicked, ?_, before, last, after, hsource, ?_, ?_, ?_⟩
      · rw [pickProfile_browser, hid]
      · intro t' ht'
        rw [pickProfile_browser, hid]
        exact hafter t' ht'
      · rw [pickProfile_browser]
      · cases picked.profileId <;> rfl

/-! ## The thread -/

/-- What a finished ask did for the target it resolved to: it opened this target first and at most
the default one after it, and logged at most this target, with the host of the URL. -/
structure CarriedOut (settings : Settings) (hostOf : String → Option String) (request : AskRequest)
    (run : AskRun) (t : BrowserTarget) : Prop where
  first : ∀ c ∈ run.calls.head?, c.target = t
  calls : ∀ c ∈ run.calls, c.target = t ∨ c.target = request.defaultTarget
  logged : ∀ o ∈ run.observations, settings.behaviorLogEnabled = true ∧
    hostOf request.rawUrl = some o.host ∧ o.browserId = t.browser ∧ o.profileId = t.profile
  once : run.observations.length ≤ 1

theorem askObservation_spec {hostOf : String → Option String} {settings : Settings} {now : Nat}
    {url : String} {t : BrowserTarget} :
    (∀ o ∈ askObservation hostOf settings now url t, settings.behaviorLogEnabled = true ∧
      hostOf url = some o.host ∧ o.browserId = t.browser ∧ o.profileId = t.profile) ∧
    (askObservation hostOf settings now url t).length ≤ 1 := by
  unfold askObservation
  split
  · rename_i henabled
    split
    · rename_i host hhost
      refine ⟨fun o ho => ?_, Nat.le_refl 1⟩
      cases List.mem_singleton.mp ho
      exact ⟨henabled, hhost, rfl, rfl⟩
    · exact ⟨fun o ho => (nomatch ho), Nat.zero_le 1⟩
  · exact ⟨fun o ho => (nomatch ho), Nat.zero_le 1⟩

theorem openWithDefaultFallback_calls
    {launch : Nat → BrowserTarget → String → Except String Unit} {primary dflt : BrowserTarget}
    {url : String} :
    (∀ c ∈ (openWithDefaultFallback launch primary dflt url).2.head?, c.target = primary) ∧
      ∀ c ∈ (openWithDefaultFallback launch primary dflt url).2,
        c.target = primary ∨ c.target = dflt := by
  unfold openWithDefaultFallback validateTarget
  simp only
  split
  · simp
  · split
    · simp
    · split <;> simp

/-- **The thread.** It resolves to nothing and does nothing, or carries out what it resolved to. -/
theorem runAsk_spec {desktop : Desktop} {inventory : Inventory} {settings : Settings}
    {hostOf : String → Option String} {now : Nat} {request : AskRequest}
    {showPicker : List PickerChoice → PickerStyle → Option PickerPick} {run : AskRun}
    (h : runAsk desktop inventory settings hostOf now request showPicker = run) :
    run.target = resolveAsk inventory settings request.candidates showPicker ∧
      (run.target = none → run.observations = [] ∧ run.calls = []) ∧
      ∀ t, run.target = some t → CarriedOut settings hostOf request run t := by
  unfold runAsk at h
  split at h
  · rename_i hnone
    subst h
    exact ⟨hnone.symm, fun _ => ⟨rfl, rfl⟩, fun t ht => (nomatch ht)⟩
  · rename_i target htarget
    obtain ⟨hlogged, honce⟩ :=
      @askObservation_spec hostOf settings now request.rawUrl target
    simp only at h
    split at h
    · subst h
      refine ⟨htarget.symm, fun hnone => (nomatch hnone), fun t ht => ?_⟩
      cases ht
      exact ⟨fun c hc => (nomatch hc), fun c hc => (nomatch hc), hlogged, honce⟩
    · rename_i parsed hparsed
      subst h
      obtain ⟨hfirst, hcalls⟩ :=
        @openWithDefaultFallback_calls desktop.launch target request.defaultTarget parsed
      refine ⟨htarget.symm, fun hnone => (nomatch hnone), fun t ht => ?_⟩
      cases ht
      exact ⟨hfirst, hcalls, hlogged, honce⟩

end LinkPilot
