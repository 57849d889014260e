import LinkPilot.Explain

/-!
# The App Store edition

Model of `validate_document` and its helpers in `apps/desktop/src-tauri/src/distribution.rs` as the
App Store edition builds them, and of `store::validate_target` in `crates/platform-mac/src/store.rs`.

* `validateMatcher_error_iff` — a tree is rejected exactly when a source-browser or source-profile
  matcher occurs in it.
* `store_confined` — what the router decides on an accepted document.
-/

set_option autoImplicit false

namespace LinkPilot.StoreEdition

/-! ## The validator -/

/-- `store::validate_target`. -/
def validateTarget (target : BrowserTarget) : Except String Unit :=
  if target.profile.isSome || target.incognito || target.newWindow || target.workspace.isSome then
    .error ("The App Store edition supports browser targets without a profile, private mode, " ++
      "workspace or new-window flag")
  else .ok ()

mutual

/-- `validate_matcher`. -/
def validateMatcher : MatcherTree → Except String Unit
  | .sourceBrowser _ | .sourceProfile _ =>
    .error ("Source browser/profile matching requires browser integration and is unavailable in " ++
      "the App Store edition")
  | .all of => validateMatchers of
  | .any of => validateMatchers of
  | .not of => validateMatcher of
  | _ => .ok ()

/-- `of.iter().try_for_each(validate_matcher)`. -/
def validateMatchers : List MatcherTree → Except String Unit
  | [] => .ok ()
  | m :: of =>
    match validateMatcher m with
    | .error e => .error e
    | .ok () => validateMatchers of

end

/-- The `match &rule.then` of `validate_document`. -/
def validateAction : Action → Except String Unit
  | .openWith target => validateTarget target
  | .keepSource =>
    .error "Keep-source requires browser integration and is unavailable in the App Store edition"
  | _ => .ok ()

/-- The `for rule in &doc.rules` loop. -/
def validateRules : List Rule → Except String Unit
  | [] => .ok ()
  | rule :: rules =>
    match validateMatcher rule.when with
    | .error e => .error e
    | .ok () =>
      match validateAction rule.action with
      | .error e => .error e
      | .ok () => validateRules rules

/-- `validate_document`. -/
def validateDocument (doc : ConfigDocument) : Except String Unit :=
  match validateTarget doc.defaultTarget with
  | .error e => .error e
  | .ok () =>
    if doc.settings.launchAtLogin || doc.settings.autoCheckUpdates ||
        !doc.settings.profileOrders.entries.isEmpty || !doc.customBrowsers.isEmpty then
      .error ("App Store settings cannot enable LaunchAgents, external updates, profile ordering " ++
        "or custom browsers")
    else validateRules doc.rules

/-! ## What it accepts -/

/-- A browser and nothing else. -/
structure Plain (target : BrowserTarget) : Prop where
  profile : target.profile = none
  workspace : target.workspace = none
  incognito : target.incognito = false
  newWindow : target.newWindow = false

theorem validateTarget_ok_iff {target : BrowserTarget} :
    validateTarget target = .ok () ↔ Plain target := by
  unfold validateTarget
  constructor
  · intro h
    split at h
    · cases h
    · rename_i hplain
      simp only [Bool.or_eq_true, not_or, Bool.not_eq_true, Option.isSome_eq_false_iff,
        Option.isNone_iff_eq_none] at hplain
      obtain ⟨⟨⟨hprofile, hincognito⟩, hnew⟩, hworkspace⟩ := hplain
      exact ⟨hprofile, hworkspace, hincognito, hnew⟩
  · rintro ⟨hprofile, hworkspace, hincognito, hnew⟩
    simp [hprofile, hworkspace, hincognito, hnew]

/-- The first tree is a node of the second. -/
inductive Occurs (s : MatcherTree) : MatcherTree → Prop
  | self : Occurs s s
  | all {m : MatcherTree} {of : List MatcherTree} (hm : m ∈ of) (h : Occurs s m) :
    Occurs s (.all of)
  | any {m : MatcherTree} {of : List MatcherTree} (hm : m ∈ of) (h : Occurs s m) :
    Occurs s (.any of)
  | not {of : MatcherTree} (h : Occurs s of) : Occurs s (.not of)

/-- A matcher that needs the browser extension. -/
inductive ReadsBrowser : MatcherTree → Prop
  | sourceBrowser (browser : String) : ReadsBrowser (.sourceBrowser browser)
  | sourceProfile (profile : String) : ReadsBrowser (.sourceProfile profile)

/-- No node of the tree needs the browser extension. -/
def BrowserFree (t : MatcherTree) : Prop := ∀ s, Occurs s t → ¬ ReadsBrowser s

theorem browserFree_of_leaf {t : MatcherTree} (hleaf : ∀ s, Occurs s t → s = t)
    (hreads : ¬ ReadsBrowser t) : BrowserFree t := by
  intro s hs
  rw [hleaf s hs]
  exact hreads

theorem browserFree_all {of : List MatcherTree} :
    BrowserFree (.all of) ↔ ∀ m ∈ of, BrowserFree m := by
  constructor
  · intro h m hm s hs
    exact h s (.all hm hs)
  · intro h s hs
    cases hs with
    | self => exact nofun
    | all hm hs => exact h _ hm s hs

theorem browserFree_any {of : List MatcherTree} :
    BrowserFree (.any of) ↔ ∀ m ∈ of, BrowserFree m := by
  constructor
  · intro h m hm s hs
    exact h s (.any hm hs)
  · intro h s hs
    cases hs with
    | self => exact nofun
    | any hm hs => exact h _ hm s hs

theorem browserFree_not {of : MatcherTree} : BrowserFree (.not of) ↔ BrowserFree of := by
  constructor
  · intro h s hs
    exact h s (.not hs)
  · intro h s hs
    cases hs with
    | self => exact nofun
    | not hs => exact h s hs

mutual

theorem validateMatcher_ok_iff : ∀ t, validateMatcher t = .ok () ↔ BrowserFree t
  | .always => by
    refine iff_of_true rfl (browserFree_of_leaf (fun s hs => ?_) nofun)
    cases hs
    rfl
  | .urlHost _ => by
    refine iff_of_true rfl (browserFree_of_leaf (fun s hs => ?_) nofun)
    cases hs
    rfl
  | .urlPath _ => by
    refine iff_of_true rfl (browserFree_of_leaf (fun s hs => ?_) nofun)
    cases hs
    rfl
  | .sourceApp _ _ => by
    refine iff_of_true rfl (browserFree_of_leaf (fun s hs => ?_) nofun)
    cases hs
    rfl
  | .sourceBrowser browser => iff_of_false nofun fun h => h _ .self (.sourceBrowser browser)
  | .sourceProfile profile => iff_of_false nofun fun h => h _ .self (.sourceProfile profile)
  | .all of => by
    rw [validateMatcher, browserFree_all]
    exact validateMatchers_ok_iff of
  | .any of => by
    rw [validateMatcher, browserFree_any]
    exact validateMatchers_ok_iff of
  | .not of => by
    rw [validateMatcher, browserFree_not]
    exact validateMatcher_ok_iff of

theorem validateMatchers_ok_iff :
    ∀ of, validateMatchers of = .ok () ↔ ∀ m ∈ of, BrowserFree m
  | [] => iff_of_true rfl fun _ h => by cases h
  | m :: of => by
    rw [List.forall_mem_cons, ← validateMatcher_ok_iff m, ← validateMatchers_ok_iff of,
      validateMatchers]
    cases validateMatcher m with
    | error e => simp
    | ok u => simp

end

/-- **The matcher check** rejects exactly the trees in which such a matcher occurs. -/
theorem validateMatcher_error_iff {t : MatcherTree} :
    (∃ e, validateMatcher t = .error e) ↔ ∃ s, Occurs s t ∧ ReadsBrowser s := by
  have hok := validateMatcher_ok_iff t
  unfold BrowserFree at hok
  cases h : validateMatcher t with
  | error e =>
    refine iff_of_true ⟨e, rfl⟩ ?_
    rw [h] at hok
    by_contra hnone
    push Not at hnone
    exact absurd (hok.mpr hnone) nofun
  | ok u =>
    refine iff_of_false nofun ?_
    rintro ⟨s, hs, hreads⟩
    exact hok.mp h s hs hreads

/-- What `validate_document` promises the router. -/
structure Accepted (doc : ConfigDocument) : Prop where
  default : Plain doc.defaultTarget
  matchers : ∀ rule ∈ doc.rules, BrowserFree rule.when
  actions : ∀ rule ∈ doc.rules, validateAction rule.action = .ok ()

theorem validateRules_ok {rules : List Rule} (h : validateRules rules = .ok ()) :
    ∀ rule ∈ rules, BrowserFree rule.when ∧ validateAction rule.action = .ok () := by
  induction rules with
  | nil =>
    intro rule hrule
    cases hrule
  | cons r rules ih =>
    rw [validateRules] at h
    split at h
    · cases h
    · rename_i hmatcher
      split at h
      · cases h
      · rename_i haction
        exact List.forall_mem_cons.mpr
          ⟨⟨(validateMatcher_ok_iff r.when).mp hmatcher, haction⟩, ih h⟩

theorem accepted_of_validateDocument {doc : ConfigDocument} (h : validateDocument doc = .ok ()) :
    Accepted doc := by
  unfold validateDocument at h
  split at h
  · cases h
  · rename_i hdefault
    split at h
    · cases h
    · have hrules := validateRules_ok h
      exact ⟨validateTarget_ok_iff.mp hdefault, fun r hr => (hrules r hr).1,
        fun r hr => (hrules r hr).2⟩

/-! ## What the router makes of it -/

/-- The decision is no Allow, and if it opens the link then in a browser without options. -/
structure Confined (d : RoutingDecision) : Prop where
  notAllow : ∀ reason, d ≠ .allow reason
  plain : ∀ target matchedRule reason, d = .openWith target matchedRule reason → Plain target

/-- The reason text plays no part. -/
theorem Confined.of_same {d d' : RoutingDecision} (h : Confined d')
    (hsame : d.withReason "" = d'.withReason "") : Confined d := by
  cases d with
  | openWith target matchedRule reason =>
    cases d' with
    | openWith target' matchedRule' reason' =>
      cases hsame
      refine ⟨nofun, ?_⟩
      rintro _ _ _ ⟨⟩
      exact h.plain _ _ _ rfl
    | _ => cases hsame
  | allow reason =>
    cases d' with
    | allow reason' => exact absurd rfl (h.notAllow reason')
    | _ => cases hsame
  | ask candidates reason => exact ⟨nofun, nofun⟩
  | block reason => exact ⟨nofun, nofun⟩

theorem confined_defaultTargetDecision {target : BrowserTarget} (h : Plain target)
    (reason : String) : Confined (defaultTargetDecision target reason) := by
  unfold defaultTargetDecision
  split
  · exact ⟨nofun, nofun⟩
  · refine ⟨nofun, ?_⟩
    rintro _ _ _ ⟨⟩
    exact h

theorem confined_decideFromAction {action : Action} (h : validateAction action = .ok ())
    (matchedRule : Option RuleId) (note : Option String) :
    Confined (decideFromAction action matchedRule note) := by
  cases action with
  | openWith target =>
    refine ⟨nofun, ?_⟩
    rintro _ _ _ ⟨⟩
    exact validateTarget_ok_iff.mp h
  | keepSource => cases h
  | ask => exact ⟨nofun, nofun⟩
  | block => exact ⟨nofun, nofun⟩

/-- The context with another browser and profile of its source. -/
def withBrowser (ctx : RoutingContext) (browser profile : Option String) : RoutingContext :=
  { ctx with source := { ctx.source with browser := browser, profile := profile } }

section Route

variable {urlParse : String → Option Url} {doc : ConfigDocument} {ctx : RoutingContext}
  {browser profile : Option String}

mutual

theorem evalTree_withBrowser : ∀ t, BrowserFree t →
    evalTree urlParse (withBrowser ctx browser profile) t = evalTree urlParse ctx t
  | .always, _ => rfl
  | .all of, h => by
    simp only [evalTree, evalTrees_withBrowser of (browserFree_all.mp h)]
  | .any of, h => by
    simp only [evalTree, evalTrees_withBrowser of (browserFree_any.mp h)]
  | .not of, h => by
    simp only [evalTree, evalTree_withBrowser of (browserFree_not.mp h)]
  | .urlHost _, _ => rfl
  | .urlPath _, _ => rfl
  | .sourceApp _ _, _ => rfl
  | .sourceBrowser b, h => absurd (ReadsBrowser.sourceBrowser b) (h _ .self)
  | .sourceProfile p, h => absurd (ReadsBrowser.sourceProfile p) (h _ .self)

theorem evalTrees_withBrowser : ∀ of, (∀ m ∈ of, BrowserFree m) →
    evalTrees urlParse (withBrowser ctx browser profile) of = evalTrees urlParse ctx of
  | [], _ => rfl
  | m :: of, h => by
    obtain ⟨hm, hof⟩ := List.forall_mem_cons.mp h
    simp only [evalTrees, evalTree_withBrowser m hm, evalTrees_withBrowser of hof]

end

theorem evaluate_withBrowser (h : Accepted doc) (ctx : RoutingContext)
    (browser profile : Option String) (pressed : Bool) :
    evaluateExplainedWithAskShortcut urlParse doc (withBrowser ctx browser profile) pressed =
      evaluateExplainedWithAskShortcut urlParse doc ctx pressed := by
  unfold evaluateExplainedWithAskShortcut
  split
  · rfl
  · refine evaluateRules_congr urlParse rfl (fun r hr => ?_) none
    have htrace := @evalTree_withBrowser urlParse ctx browser profile r.when (h.matchers r hr)
    simp only [fires, explainRule, htrace, and_self]

theorem evaluate_confined (h : Accepted doc) (ctx : RoutingContext) (pressed : Bool) :
    Confined (evaluateExplainedWithAskShortcut urlParse doc ctx pressed).decision := by
  cases hs : doc.settings.smartRoutingEnabled with
  | false =>
    rw [smart_off urlParse hs]
    exact confined_defaultTargetDecision h.default _
  | true =>
    have hdeciding := evaluate_deciding urlParse ctx hs pressed
    cases hr : decidingRule urlParse doc ctx pressed with
    | none =>
      rw [hr] at hdeciding
      rw [hdeciding]
      exact confined_defaultTargetDecision h.default _
    | some rule =>
      rw [hr] at hdeciding
      have hmem : rule ∈ doc.rules := ((decides_iff hs).mpr hr).mem_and_fires.1
      exact (confined_decideFromAction (h.actions rule hmem) _ _).of_same hdeciding.1

end Route

/-- **Confinement.**  On a document that the App Store edition accepts, for every context and with
the shortcut held or not, the router never decides to keep the source, opens links in targets that
name a browser only, and takes no notice of the browser and the profile of the source.  The matcher
check rejects a tree exactly when a matcher for these occurs in it. -/
theorem store_confined {doc : ConfigDocument} (h : validateDocument doc = .ok ())
    (urlParse : String → Option Url) (ctx : RoutingContext) (pressed : Bool) :
    Confined (evaluateExplainedWithAskShortcut urlParse doc ctx pressed).decision ∧
      (∀ browser profile,
        evaluateExplainedWithAskShortcut urlParse doc (withBrowser ctx browser profile) pressed =
          evaluateExplainedWithAskShortcut urlParse doc ctx pressed) ∧
      ∀ tree, (∃ e, validateMatcher tree = .error e) ↔ ∃ s, Occurs s tree ∧ ReadsBrowser s := by
  have haccepted := accepted_of_validateDocument h
  exact ⟨evaluate_confined haccepted ctx pressed,
    fun browser profile => evaluate_withBrowser haccepted ctx browser profile pressed,
    fun _ => validateMatcher_error_iff⟩

/-- Links that are not from Lark open in Arc, all others are asked for. -/
def storeDocument : ConfigDocument :=
  let doc := ConfigDocument.withDefault (.new "system")
  { doc with
    rules := [⟨1, true, .all [.not (.sourceApp "Lark" none)], .openWith (.new "arc"), .gui, none,
      none⟩]
    settings := { doc.settings with autoCheckUpdates := false } }

theorem store_confined_arc :
    validateDocument storeDocument = .ok () ∧
      (evaluateExplainedWithAskShortcut (fun _ => none) storeDocument
        (withBrowser larkContext (some "chrome") (some "Work")) true) =
        evaluateExplainedWithAskShortcut (fun _ => none) storeDocument larkContext true :=
  ⟨rfl, (store_confined rfl (fun _ => none) larkContext true).2.1 (some "chrome") (some "Work")⟩

end LinkPilot.StoreEdition
