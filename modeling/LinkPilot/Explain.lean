import LinkPilot.Daemon

/-!
# What an explanation says

The meaning of matcher trees, the rule that decides a route, and what the trace of `eval_tree` and
the result of `Router::evaluate_explained_with_ask_shortcut` (`crates/core/src/routing.rs`) say
about the two.

Principal results:

* `isTrace_evalTree` — the trace has the shape of the tree, and each of its flags is the meaning of
  the subtree.
* `explanation_sound` — a result has an explanation exactly when a rule decides; it is then the
  trace of that rule, whose id the decision and the history record carry.
* `displayName_irrelevant` — when every source-app matcher has a bundle id, the display name of a
  source that has one changes nothing.
-/

set_option autoImplicit false

namespace LinkPilot

/-! ## The meaning of a matcher tree -/

/-- The bundle ids decide when both sides have one, otherwise the display name does. -/
def SourceAppHolds (name : String) (bundleId : Option String) (source : Source) : Prop :=
  (∃ bid b, bundleId = some bid ∧ bid ≠ "" ∧ source.bundleId = some b ∧
      eqIgnoreAsciiCase b bid = true) ∨
    ((source.bundleId = none ∨ ∀ bid, bundleId = some bid → bid = "") ∧
      ∃ n, source.appName = some n ∧ eqIgnoreAsciiCase n name = true)

theorem matchSourceApp_iff (name : String) (bundleId : Option String) (source : Source) :
    matchSourceApp name bundleId source = true ↔ SourceAppHolds name bundleId source := by
  unfold matchSourceApp SourceAppHolds
  cases bundleId with
  | none => cases source.appName <;> simp
  | some bid =>
    by_cases hbid : bid = ""
    · subst hbid
      cases source.appName <;> simp
    · have hempty : bid.isEmpty = false := by simpa [String.isEmpty_iff] using hbid
      cases hb : source.bundleId with
      | none => cases source.appName <;> simp [hempty]
      | some b => cases heq : eqIgnoreAsciiCase b bid <;> simp [hempty, hbid, heq]

section Meaning

variable (urlParse : String → Option Url) (ctx : RoutingContext)

mutual

def MatcherTree.Holds : MatcherTree → Prop
  | .always => True
  | .all of => of ≠ [] ∧ AllHold of
  | .any of => AnyHolds of
  | .not of => ¬ Holds of
  | .urlHost pattern => matchHost urlParse pattern ctx.url = true
  | .urlPath pattern => matchPath urlParse pattern ctx.url = true
  | .sourceApp name bundleId => SourceAppHolds name bundleId ctx.source
  | .sourceBrowser browser =>
    ∃ b, ctx.source.browser = some b ∧ eqIgnoreAsciiCase b browser = true
  | .sourceProfile profile => ctx.source.profile = some profile

def MatcherTree.AllHold : List MatcherTree → Prop
  | [] => True
  | t :: ts => Holds t ∧ AllHold ts

def MatcherTree.AnyHolds : List MatcherTree → Prop
  | [] => False
  | t :: ts => Holds t ∨ AnyHolds ts

end

/-- The trace has the constructors, the order and the patterns of the tree, and the flag of each
node is the meaning of its subtree. -/
inductive IsTrace : MatcherTree → MatcherEval → Prop
  | always {m : Bool} (hm : m = true ↔ MatcherTree.always.Holds urlParse ctx) :
    IsTrace .always (.always m)
  | all {m : Bool} {of : List MatcherTree} {children : List MatcherEval}
    (hof : List.Forall₂ IsTrace of children)
    (hm : m = true ↔ (MatcherTree.all of).Holds urlParse ctx) :
    IsTrace (.all of) (.all m children)
  | any {m : Bool} {of : List MatcherTree} {children : List MatcherEval}
    (hof : List.Forall₂ IsTrace of children)
    (hm : m = true ↔ (MatcherTree.any of).Holds urlParse ctx) :
    IsTrace (.any of) (.any m children)
  | not {m : Bool} {of : MatcherTree} {child : MatcherEval} (hof : IsTrace of child)
    (hm : m = true ↔ (MatcherTree.not of).Holds urlParse ctx) :
    IsTrace (.not of) (.not m child)
  | urlHost {m : Bool} {pattern : String}
    (hm : m = true ↔ (MatcherTree.urlHost pattern).Holds urlParse ctx) :
    IsTrace (.urlHost pattern) (.urlHost m pattern)
  | urlPath {m : Bool} {pattern : String}
    (hm : m = true ↔ (MatcherTree.urlPath pattern).Holds urlParse ctx) :
    IsTrace (.urlPath pattern) (.urlPath m pattern)
  | sourceApp {m : Bool} {name : String} {bundleId : Option String}
    (hm : m = true ↔ (MatcherTree.sourceApp name bundleId).Holds urlParse ctx) :
    IsTrace (.sourceApp name bundleId) (.sourceApp m name)
  | sourceBrowser {m : Bool} {browser : String}
    (hm : m = true ↔ (MatcherTree.sourceBrowser browser).Holds urlParse ctx) :
    IsTrace (.sourceBrowser browser) (.sourceBrowser m browser)
  | sourceProfile {m : Bool} {profile : String}
    (hm : m = true ↔ (MatcherTree.sourceProfile profile).Holds urlParse ctx) :
    IsTrace (.sourceProfile profile) (.sourceProfile m profile)

variable {urlParse} {ctx}

/-- The flag of the root. -/
theorem IsTrace.matched {t : MatcherTree} {e : MatcherEval} (h : IsTrace urlParse ctx t e) :
    e.matched = true ↔ t.Holds urlParse ctx := by
  cases h <;> assumption

theorem all_matched_iff {ts : List MatcherTree} {es : List MatcherEval}
    (h : List.Forall₂ (IsTrace urlParse ctx) ts es) :
    es.all MatcherEval.matched = true ↔ MatcherTree.AllHold urlParse ctx ts := by
  induction h with
  | nil => simp [MatcherTree.AllHold]
  | cons hte _ ih => simp only [List.all_cons, Bool.and_eq_true, hte.matched, ih, MatcherTree.AllHold]

theorem any_matched_iff {ts : List MatcherTree} {es : List MatcherEval}
    (h : List.Forall₂ (IsTrace urlParse ctx) ts es) :
    es.any MatcherEval.matched = true ↔ MatcherTree.AnyHolds urlParse ctx ts := by
  induction h with
  | nil => simp [MatcherTree.AnyHolds]
  | cons hte _ ih => simp only [List.any_cons, Bool.or_eq_true, hte.matched, ih, MatcherTree.AnyHolds]

theorem isEmpty_iff_of_trace {ts : List MatcherTree} {es : List MatcherEval}
    (h : List.Forall₂ (IsTrace urlParse ctx) ts es) : es.isEmpty = false ↔ ts ≠ [] := by
  cases h <;> simp

mutual

/-- **The trace is sound**, node by node. -/
theorem isTrace_evalTree : ∀ t, IsTrace urlParse ctx t (evalTree urlParse ctx t)
  | .always => .always (by simp [MatcherTree.Holds])
  | .all of => by
    have hof := isTrace_evalTrees of
    refine .all hof ?_
    simp only [Bool.and_eq_true, Bool.not_eq_true', all_matched_iff hof, isEmpty_iff_of_trace hof,
      MatcherTree.Holds]
  | .any of => by
    have hof := isTrace_evalTrees of
    refine .any hof ?_
    simp only [any_matched_iff hof, MatcherTree.Holds]
  | .not of => by
    have hof := isTrace_evalTree of
    refine .not hof ?_
    simp only [Bool.not_eq_true', MatcherTree.Holds, ← hof.matched, Bool.not_eq_true]
  | .urlHost _ => .urlHost (by simp [MatcherTree.Holds])
  | .urlPath _ => .urlPath (by simp [MatcherTree.Holds])
  | .sourceApp _ _ => .sourceApp (by simp only [MatcherTree.Holds, matchSourceApp_iff])
  | .sourceBrowser _ =>
    .sourceBrowser (by cases h : ctx.source.browser <;> simp [MatcherTree.Holds, h])
  | .sourceProfile _ =>
    .sourceProfile (by cases h : ctx.source.profile <;> simp [MatcherTree.Holds, h])

theorem isTrace_evalTrees :
    ∀ ts, List.Forall₂ (IsTrace urlParse ctx) ts (evalTrees urlParse ctx ts)
  | [] => .nil
  | t :: ts => .cons (isTrace_evalTree t) (isTrace_evalTrees ts)

end

theorem evalTree_matched_iff {t : MatcherTree} :
    (evalTree urlParse ctx t).matched = true ↔ t.Holds urlParse ctx :=
  (isTrace_evalTree t).matched

end Meaning

/-! ## The deciding rule -/

section Decides

variable (urlParse : String → Option Url) (doc : ConfigDocument) (ctx : RoutingContext)

/-- The workspace that the rule refers to, if the document has it, is enabled. -/
def InEnabledWorkspace (rule : Rule) : Prop :=
  ∀ id w, rule.workspaceId = some id → (doc.workspaces.find? fun w => w.id == id) = some w →
    w.enabled = true

/-- The rule takes part and its matcher holds. -/
structure Fires (rule : Rule) : Prop where
  enabled : rule.enabled = true
  workspace : InEnabledWorkspace doc rule
  holds : rule.when.Holds urlParse ctx

/-- The first rule with the property. -/
def Topmost (P : Rule → Prop) (rules : List Rule) (rule : Rule) : Prop :=
  ∃ pre post, rules = pre ++ rule :: post ∧ P rule ∧ ∀ r ∈ pre, ¬ P r

/-- With smart routing on, the first firing rule decides; with the shortcut held, the first one that
is not an Ask, and the first Ask only when all firing rules are Asks. -/
def Decides (pressed : Bool) (rule : Rule) : Prop :=
  doc.settings.smartRoutingEnabled = true ∧
    if pressed then
      Topmost (fun r => Fires urlParse doc ctx r ∧ r.action.isAsk = false) doc.rules rule ∨
        (∀ r ∈ doc.rules, Fires urlParse doc ctx r → r.action.isAsk = true) ∧
          Topmost (Fires urlParse doc ctx) doc.rules rule
    else Topmost (Fires urlParse doc ctx) doc.rules rule

/-- The history record of a result. -/
def RouteRecord.ofExplained (now : Nat) (ctx : RoutingContext) (e : Explained) : RouteRecord :=
  RouteRecord.withExplanation now ctx e.decision e.explanation

/-- What the rule's decision shows: the trace, the action up to the reason text, and the rule's id
in the decision and in the history record. -/
structure ExplainsRule (now : Nat) (e : Explained) (rule : Rule) : Prop where
  mem : rule ∈ doc.rules
  enabled : rule.enabled = true
  workspace : InEnabledWorkspace doc rule
  trace : e.explanation = some (evalTree urlParse ctx rule.when)
  matched : (evalTree urlParse ctx rule.when).matched = true
  decision : e.decision.withReason "" =
    (decideFromAction rule.action (some rule.id) rule.note).withReason ""
  decisionId : ∀ target matchedRule reason, e.decision = .openWith target matchedRule reason →
    matchedRule = some rule.id
  record : (RouteRecord.ofExplained now ctx e).explanation =
    some (evalTree urlParse ctx rule.when)
  recordId : ∀ target matchedRule reason, e.decision = .openWith target matchedRule reason →
    (RouteRecord.ofExplained now ctx e).matchedRule = some rule.id

variable {urlParse} {doc} {ctx}

theorem workspaceEnabled_iff {rule : Rule} :
    workspaceEnabled doc rule.workspaceId = true ↔ InEnabledWorkspace doc rule := by
  unfold InEnabledWorkspace
  cases rule.workspaceId with
  | none => simp [workspaceEnabled]
  | some id =>
    cases hfind : doc.workspaces.find? fun w => w.id == id with
    | none =>
      refine iff_of_true (by simp [workspaceEnabled, hfind]) ?_
      rintro _ w ⟨rfl⟩ hw
      rw [hfind] at hw
      cases hw
    | some w =>
      simp only [workspaceEnabled, hfind, Option.map_some, Option.getD_some]
      constructor
      · rintro h _ w' ⟨rfl⟩ hw
        rw [hfind] at hw
        cases hw
        exact h
      · exact fun h => h id w rfl hfind

theorem fires_iff {rule : Rule} :
    fires urlParse doc ctx rule = true ↔ Fires urlParse doc ctx rule := by
  simp only [fires, eligible, Bool.and_eq_true, workspaceEnabled_iff, evalTree_matched_iff]
  exact ⟨fun h => ⟨h.1.1, h.1.2, h.2⟩, fun h => ⟨⟨h.enabled, h.workspace⟩, h.holds⟩⟩

theorem find?_eq_some_iff_topmost {p : Rule → Bool} {P : Rule → Prop}
    (h : ∀ r, p r = true ↔ P r) {rules : List Rule} {rule : Rule} :
    rules.find? p = some rule ↔ Topmost P rules rule := by
  rw [List.find?_eq_some_iff_append]
  constructor
  · rintro ⟨hp, pre, post, heq, hpre⟩
    refine ⟨pre, post, heq, (h rule).mp hp, fun r hr hP => ?_⟩
    have := hpre r hr
    simp [(h r).mpr hP] at this
  · rintro ⟨pre, post, heq, hP, hpre⟩
    refine ⟨(h rule).mpr hP, pre, post, heq, fun r hr => ?_⟩
    have := mt (h r).mp (hpre r hr)
    simpa using this

theorem Topmost.mem {P : Rule → Prop} {rules : List Rule} {rule : Rule}
    (h : Topmost P rules rule) : rule ∈ rules := by
  obtain ⟨pre, post, rfl, -, -⟩ := h
  simp

theorem Topmost.holds {P : Rule → Prop} {rules : List Rule} {rule : Rule}
    (h : Topmost P rules rule) : P rule := by
  obtain ⟨pre, post, -, hP, -⟩ := h
  exact hP

theorem Decides.mem_and_fires {pressed : Bool} {rule : Rule}
    (h : Decides urlParse doc ctx pressed rule) :
    rule ∈ doc.rules ∧ Fires urlParse doc ctx rule := by
  obtain ⟨-, h⟩ := h
  split at h
  · rcases h with h | ⟨-, h⟩
    · exact ⟨h.mem, h.holds.1⟩
    · exact ⟨h.mem, h.holds⟩
  · exact ⟨h.mem, h.holds⟩

/-- The rule that decides, when there is one. -/
def decidingRule (urlParse : String → Option Url) (doc : ConfigDocument) (ctx : RoutingContext)
    (pressed : Bool) : Option Rule :=
  if pressed then (firstNonAsk urlParse doc ctx).or (firstMatch urlParse doc ctx)
  else firstMatch urlParse doc ctx

theorem firstMatch_iff {rule : Rule} :
    firstMatch urlParse doc ctx = some rule ↔ Topmost (Fires urlParse doc ctx) doc.rules rule :=
  find?_eq_some_iff_topmost fun _ => fires_iff

theorem firstNonAsk_iff {rule : Rule} :
    firstNonAsk urlParse doc ctx = some rule ↔
      Topmost (fun r => Fires urlParse doc ctx r ∧ r.action.isAsk = false) doc.rules rule :=
  find?_eq_some_iff_topmost fun r => by
    rw [Bool.and_eq_true, fires_iff, Bool.not_eq_true']

theorem firstNonAsk_none_iff :
    firstNonAsk urlParse doc ctx = none ↔
      ∀ r ∈ doc.rules, Fires urlParse doc ctx r → r.action.isAsk = true := by
  unfold firstNonAsk
  rw [List.find?_eq_none]
  refine forall₂_congr fun r _ => ?_
  rw [Bool.and_eq_true, fires_iff, Bool.not_eq_true']
  cases r.action.isAsk <;> simp

theorem decides_iff (hs : doc.settings.smartRoutingEnabled = true) {pressed : Bool} {rule : Rule} :
    Decides urlParse doc ctx pressed rule ↔ decidingRule urlParse doc ctx pressed = some rule := by
  unfold Decides decidingRule
  cases pressed with
  | false => simp [hs, firstMatch_iff]
  | true =>
    simp only [hs, true_and, if_true, ← firstNonAsk_iff, ← firstNonAsk_none_iff, ← firstMatch_iff]
    cases hn : firstNonAsk urlParse doc ctx <;> simp

variable (urlParse) (ctx) in
/-- The result is that of the deciding rule up to the reason, else that of the default target. -/
theorem evaluate_deciding (hs : doc.settings.smartRoutingEnabled = true) (pressed : Bool) :
    match decidingRule urlParse doc ctx pressed with
    | some rule =>
      (evaluateExplainedWithAskShortcut urlParse doc ctx pressed).SameUpToReason
        (explainRule urlParse ctx rule)
    | none =>
      evaluateExplainedWithAskShortcut urlParse doc ctx pressed =
        ⟨defaultTargetDecision doc.defaultTarget "default target (no rule matched)", none⟩ := by
  rw [smart_on urlParse hs]
  cases pressed with
  | false =>
    rw [evaluateRules_released]
    unfold decidingRule firstMatch
    simp only [Bool.false_eq_true, if_false]
    cases doc.rules.find? (fires urlParse doc ctx) with
    | some r => exact ⟨rfl, rfl⟩
    | none => rfl
  | true =>
    rw [evaluateRules_held]
    unfold decidingRule firstNonAsk firstMatch
    simp only [if_true]
    cases hn : doc.rules.find? fun r => fires urlParse doc ctx r && !r.action.isAsk with
    | some r =>
      simp only [Option.some_or]
      split
      · exact Explained.SameUpToReason.prepend _ _
      · exact ⟨rfl, rfl⟩
    | none =>
      cases hm : doc.rules.find? (fires urlParse doc ctx) with
      | some r => exact noLaterRule_same _
      | none => rfl

theorem evaluate_off (hs : doc.settings.smartRoutingEnabled = false) :
    evaluate urlParse doc ctx =
      defaultTargetDecision doc.defaultTarget "smart routing disabled — default target" := by
  unfold evaluate evaluateExplained
  rw [smart_off urlParse hs]

theorem evaluate_of_firstMatch {rule : Rule} (hs : doc.settings.smartRoutingEnabled = true)
    (h : firstMatch urlParse doc ctx = some rule) :
    evaluate urlParse doc ctx = decideFromAction rule.action (some rule.id) rule.note := by
  unfold firstMatch at h
  unfold evaluate evaluateExplained
  rw [smart_on urlParse hs, evaluateRules_released, h]
  rfl

theorem evaluate_of_noMatch (hs : doc.settings.smartRoutingEnabled = true)
    (h : firstMatch urlParse doc ctx = none) :
    evaluate urlParse doc ctx =
      defaultTargetDecision doc.defaultTarget "default target (no rule matched)" := by
  unfold firstMatch at h
  unfold evaluate evaluateExplained
  rw [smart_on urlParse hs, evaluateRules_released, h]

theorem explainsRule_of_decides {pressed : Bool} {rule : Rule} (now : Nat)
    (h : Decides urlParse doc ctx pressed rule) :
    ExplainsRule urlParse doc ctx now (evaluateExplainedWithAskShortcut urlParse doc ctx pressed)
      rule := by
  have hs := h.1
  have hdecides := (decides_iff hs).mp h
  have hsame := evaluate_deciding urlParse ctx hs pressed
  rw [hdecides] at hsame
  obtain ⟨hdecision, htrace⟩ := hsame
  obtain ⟨hmem, hF⟩ := h.mem_and_fires
  have hid : ∀ target matchedRule reason,
      (evaluateExplainedWithAskShortcut urlParse doc ctx pressed).decision =
        .openWith target matchedRule reason → matchedRule = some rule.id := by
    intro target matchedRule reason heq
    rw [heq] at hdecision
    simp only [explainRule, decideFromAction] at hdecision
    cases haction : rule.action <;> simp_all [RoutingDecision.withReason]
  refine ⟨hmem, hF.enabled, hF.workspace, htrace, evalTree_matched_iff.mpr hF.holds, hdecision, hid,
    htrace, ?_⟩
  intro target matchedRule reason heq
  unfold RouteRecord.ofExplained
  rw [heq, ← hid target matchedRule reason heq]
  rfl

end Decides

/-- **The explanation is sound.** The trace of a tree has its shape and means what it says at every
node; a result has an explanation exactly when a rule decides, and then it shows that rule. -/
theorem explanation_sound (urlParse : String → Option Url) (doc : ConfigDocument)
    (ctx : RoutingContext) (pressed : Bool) (now : Nat) :
    (∀ tree, IsTrace urlParse ctx tree (evalTree urlParse ctx tree)) ∧
      ((evaluateExplainedWithAskShortcut urlParse doc ctx pressed).explanation.isSome = true ↔
        ∃ rule, Decides urlParse doc ctx pressed rule) ∧
      ∀ rule, Decides urlParse doc ctx pressed rule →
        ExplainsRule urlParse doc ctx now
          (evaluateExplainedWithAskShortcut urlParse doc ctx pressed) rule := by
  refine ⟨isTrace_evalTree, ⟨fun h => ?_, ?_⟩, fun _ => explainsRule_of_decides now⟩
  · cases hs : doc.settings.smartRoutingEnabled
    · rw [smart_off urlParse hs] at h
      cases h
    · have hdeciding := evaluate_deciding urlParse ctx hs pressed
      cases hr : decidingRule urlParse doc ctx pressed with
      | some rule => exact ⟨rule, (decides_iff hs).mpr hr⟩
      | none =>
        rw [hr] at hdeciding
        rw [hdeciding] at h
        cases h
  · rintro ⟨rule, h⟩
    rw [(explainsRule_of_decides now h).trace]
    rfl

/-! ## Display names -/

mutual

/-- Every source-app matcher in the tree has a bundle id that is not empty. -/
def MatcherTree.NamesBundle : MatcherTree → Prop
  | .all of => AllNameBundle of
  | .any of => AllNameBundle of
  | .not of => NamesBundle of
  | .sourceApp _ bundleId => ∃ bid, bundleId = some bid ∧ bid ≠ ""
  | _ => True

def MatcherTree.AllNameBundle : List MatcherTree → Prop
  | [] => True
  | t :: ts => NamesBundle t ∧ AllNameBundle ts

end

/-- The context with another display name of its source. -/
def RoutingContext.withAppName (ctx : RoutingContext) (appName : Option String) : RoutingContext :=
  { ctx with source := { ctx.source with appName := appName } }

/-- What a history record says about the decision. -/
def RouteRecord.attribution (r : RouteRecord) :
    RoutingDecision × Option RuleId × Option MatcherEval :=
  (r.decision, r.matchedRule, r.explanation)

section DisplayName

variable {urlParse : String → Option Url} {doc : ConfigDocument} {ctx : RoutingContext}

theorem sourceAppHolds_rename {name : String} {bundleId : Option String} {source : Source}
    (hrule : ∃ bid, bundleId = some bid ∧ bid ≠ "") (hsource : source.bundleId.isSome = true)
    (appName : Option String) :
    SourceAppHolds name bundleId { source with appName := appName } ↔
      SourceAppHolds name bundleId source := by
  obtain ⟨bid, rfl, hbid⟩ := hrule
  obtain ⟨b, hb⟩ := Option.isSome_iff_exists.mp hsource
  simp [SourceAppHolds, hb, hbid]

mutual

theorem evalTree_withAppName (hctx : ctx.source.bundleId.isSome = true) (appName : Option String) :
    ∀ t : MatcherTree, t.NamesBundle →
      evalTree urlParse (ctx.withAppName appName) t = evalTree urlParse ctx t
  | .always, _ => rfl
  | .all of, h => by
    simp only [evalTree, evalTrees_withAppName hctx appName of h]
  | .any of, h => by
    simp only [evalTree, evalTrees_withAppName hctx appName of h]
  | .not of, h => by
    simp only [evalTree, evalTree_withAppName hctx appName of h]
  | .urlHost _, _ => rfl
  | .urlPath _, _ => rfl
  | .sourceApp name bundleId, h => by
    -- the name is only read when one of the bundle ids is missing
    have hsame : matchSourceApp name bundleId (ctx.withAppName appName).source =
        matchSourceApp name bundleId ctx.source := by
      rw [Bool.eq_iff_iff, matchSourceApp_iff, matchSourceApp_iff]
      exact sourceAppHolds_rename h hctx appName
    simp only [evalTree, hsame]
  | .sourceBrowser _, _ => rfl
  | .sourceProfile _, _ => rfl

theorem evalTrees_withAppName (hctx : ctx.source.bundleId.isSome = true)
    (appName : Option String) :
    ∀ ts : List MatcherTree, MatcherTree.AllNameBundle ts →
      evalTrees urlParse (ctx.withAppName appName) ts = evalTrees urlParse ctx ts
  | [], _ => rfl
  | t :: ts, h => by
    simp only [evalTrees, evalTree_withAppName hctx appName t h.1,
      evalTrees_withAppName hctx appName ts h.2]

end

end DisplayName

/-- **Display names do not route.** When every source-app matcher of the document has a bundle id
and the source has one, another display name leaves the decision, the explanation and what the
history says about them as they are. -/
theorem displayName_irrelevant {urlParse : String → Option Url} {doc : ConfigDocument}
    {ctx : RoutingContext} (hdoc : ∀ rule ∈ doc.rules, rule.when.NamesBundle)
    (hctx : ctx.source.bundleId.isSome = true) (appName : Option String) (pressed : Bool)
    (now now' : Nat) :
    evaluateExplainedWithAskShortcut urlParse doc (ctx.withAppName appName) pressed =
        evaluateExplainedWithAskShortcut urlParse doc ctx pressed ∧
      (RouteRecord.ofExplained now' (ctx.withAppName appName)
          (evaluateExplainedWithAskShortcut urlParse doc (ctx.withAppName appName)
            pressed)).attribution =
        (RouteRecord.ofExplained now ctx
          (evaluateExplainedWithAskShortcut urlParse doc ctx pressed)).attribution := by
  have hsame : evaluateExplainedWithAskShortcut urlParse doc (ctx.withAppName appName) pressed =
      evaluateExplainedWithAskShortcut urlParse doc ctx pressed := by
    unfold evaluateExplainedWithAskShortcut
    split
    · rfl
    · refine evaluateRules_congr urlParse rfl (fun r hr => ?_) none
      have htrace : evalTree urlParse (ctx.withAppName appName) r.when = evalTree urlParse ctx r.when :=
        evalTree_withAppName hctx appName r.when (hdoc r hr)
      simp only [fires, explainRule, htrace, and_self]
  exact ⟨hsame, by rw [hsame]; rfl⟩

/-- Links from Lark open in Arc, all others in Chrome. -/
def larkDocument : ConfigDocument :=
  let lark : MatcherTree := .sourceApp "Lark" (some "com.electron.lark")
  let rule (id : RuleId) (when : MatcherTree) (browser : BrowserId) : Rule :=
    ⟨id, true, when, .openWith (BrowserTarget.new browser), .gui, none, none⟩
  { ConfigDocument.withDefault (BrowserTarget.new "system") with
    rules := [rule 1 (.any [lark]) "arc", rule 2 (.all [.not lark]) "chrome"] }

def larkContext : RoutingContext :=
  ⟨"https://example.com", ⟨.system, some "Lark", some "com.electron.lark", none, none⟩, none, none⟩

theorem displayName_irrelevant_lark :
    evaluateExplainedWithAskShortcut (fun _ => none) larkDocument
        (larkContext.withAppName (some "飞书")) false =
      evaluateExplainedWithAskShortcut (fun _ => none) larkDocument larkContext false := by
  refine (displayName_irrelevant ?_ rfl (some "飞书") false 0 0).1
  intro rule hrule
  simp only [larkDocument, List.mem_cons, List.not_mem_nil, or_false] at hrule
  rcases hrule with rfl | rfl
  · exact ⟨⟨_, rfl, by decide⟩, trivial⟩
  · exact ⟨⟨_, rfl, by decide⟩, trivial⟩

end LinkPilot
