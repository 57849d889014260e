import LinkPilot.Config

/-!
# The router

Model of `crates/core/src/routing.rs`: matcher evaluation with its per-node trace (`evalTree`)
and the rule loop `Router::evaluate_explained_with_ask_shortcut`.

The `url` crate is a third-party package; it enters as a parameter
`urlParse : String → Option Url`, of which the router reads `host_str` and `path`.

Principal results:

* `evaluateRules_released`, `evaluateRules_held` — what the rule loop returns, in terms of the
  first firing rule and the first firing rule that is not an Ask.
* `askShortcut_refines` — with the Ask shortcut held the router behaves like the router of the
  same document without its Ask rules, up to the reason text, and falls back to the first Ask
  rather than to the default target.
-/

set_option autoImplicit false

namespace LinkPilot

/-! ## Routing contexts and decisions -/

inductive SourceKind where
  | system
  | browserExtension
  | cli
  deriving DecidableEq, Repr

structure Source where
  kind : SourceKind
  appName : Option String
  bundleId : Option String
  browser : Option String
  profile : Option String
  deriving DecidableEq, Repr

structure Navigation where
  transitionType : Option String
  isNewTab : Option Bool
  isRedirect : Option Bool
  openerUrl : Option String
  referrerUrl : Option String
  deriving DecidableEq, Repr

structure Environment where
  network : Option String
  vpn : Option String
  workspace : Option String
  deriving DecidableEq, Repr

structure RoutingContext where
  url : String
  source : Source
  navigation : Option Navigation
  environment : Option Environment
  deriving DecidableEq, Repr

inductive RoutingDecision where
  | openWith (target : BrowserTarget) (matchedRule : Option RuleId) (reason : String)
  | allow (reason : String)
  | ask (candidates : List BrowserTarget) (reason : String)
  | block (reason : String)
  deriving DecidableEq, Repr

namespace RoutingDecision

def reason : RoutingDecision → String
  | openWith _ _ r => r
  | allow r => r
  | ask _ r => r
  | block r => r

def withReason : RoutingDecision → String → RoutingDecision
  | openWith t m _, r => openWith t m r
  | allow _, r => allow r
  | ask c _, r => ask c r
  | block _, r => block r

/-- `reason.insert_str(0, s)`. -/
def prependReason (s : String) (d : RoutingDecision) : RoutingDecision :=
  d.withReason (s ++ d.reason)

@[simp] theorem withReason_withReason (d : RoutingDecision) (r r' : String) :
    (d.withReason r).withReason r' = d.withReason r' := by
  cases d <;> rfl

@[simp] theorem prependReason_withReason (d : RoutingDecision) (s r : String) :
    (d.prependReason s).withReason r = d.withReason r := by
  simp [prependReason]

end RoutingDecision

/-- `MatcherEval`: per-node match trace, same shape as `MatcherTree`. -/
inductive MatcherEval where
  | always (matched : Bool)
  | all (matched : Bool) (of : List MatcherEval)
  | any (matched : Bool) (of : List MatcherEval)
  | not (matched : Bool) (of : MatcherEval)
  | urlHost (matched : Bool) (pattern : String)
  | urlPath (matched : Bool) (pattern : String)
  | sourceApp (matched : Bool) (name : String)
  | sourceBrowser (matched : Bool) (browser : String)
  | sourceProfile (matched : Bool) (profile : String)
  deriving Repr

/-- `MatcherEval::matched`. -/
def MatcherEval.matched : MatcherEval → Bool
  | .always m => m
  | .all m _ => m
  | .any m _ => m
  | .not m _ => m
  | .urlHost m _ => m
  | .urlPath m _ => m
  | .sourceApp m _ => m
  | .sourceBrowser m _ => m
  | .sourceProfile m _ => m

/-- `Explained`: a decision and the trace of the rule that took it. -/
structure Explained where
  decision : RoutingDecision
  explanation : Option MatcherEval
  deriving Repr

/-- Equal in everything but the reason text. -/
def Explained.SameUpToReason (e e' : Explained) : Prop :=
  e.decision.withReason "" = e'.decision.withReason "" ∧ e.explanation = e'.explanation

/-! ## Matchers -/

/-- What the router reads of a parsed `url::Url`. -/
structure Url where
  hostStr : Option String
  path : String
  deriving DecidableEq, Repr

/-- `str::eq_ignore_ascii_case`. -/
def eqIgnoreAsciiCase (a b : String) : Bool :=
  a.toList.map Char.toLower == b.toList.map Char.toLower

/-- `glob_match` on the characters of its arguments. -/
def globChars (pattern value : List Char) : Bool :=
  match pattern with
  | '*' :: '.' :: rest => value == rest || ('.' :: rest).isSuffixOf value
  | _ =>
    match pattern.getLast? with
    | some '*' => pattern.dropLast.isPrefixOf value
    | _ => pattern == value

/-- `glob_match`: a leading `*.`, else a trailing `*`, else equality. -/
def globMatch (pattern value : String) : Bool := globChars pattern.toList value.toList

section Router

variable (urlParse : String → Option Url)

/-- `match_host`. -/
def matchHost (pattern url : String) : Bool :=
  match urlParse url with
  | none => false
  | some parsed =>
    match parsed.hostStr with
    | none => false
    | some host => globMatch pattern host

/-- `match_path`. -/
def matchPath (pattern url : String) : Bool :=
  match urlParse url with
  | none => false
  | some parsed => globMatch pattern parsed.path

/-- The `SourceApp` branch of `eval_tree`: bundle id when the rule and the context both have
one, otherwise the display name. -/
def matchSourceApp (name : String) (bundleId : Option String) (source : Source) : Bool :=
  let byBundle : Option Bool :=
    match bundleId with
    | some bid =>
      if bid.isEmpty then none else source.bundleId.map fun b => eqIgnoreAsciiCase b bid
    | none => none
  match byBundle with
  | some true => true
  | some false =>
    if source.bundleId.isSome then false
    else (source.appName.map fun n => eqIgnoreAsciiCase n name).getD false
  | none => (source.appName.map fun n => eqIgnoreAsciiCase n name).getD false

mutual

/-- `eval_tree`. -/
def evalTree (ctx : RoutingContext) : MatcherTree → MatcherEval
  | .always => .always true
  | .all of =>
    let children := evalTrees ctx of
    .all (!children.isEmpty && children.all MatcherEval.matched) children
  | .any of =>
    let children := evalTrees ctx of
    .any (children.any MatcherEval.matched) children
  | .not of =>
    let child := evalTree ctx of
    .not (!child.matched) child
  | .urlHost pattern => .urlHost (matchHost urlParse pattern ctx.url) pattern
  | .urlPath pattern => .urlPath (matchPath urlParse pattern ctx.url) pattern
  | .sourceApp name bundleId => .sourceApp (matchSourceApp name bundleId ctx.source) name
  | .sourceBrowser browser =>
    .sourceBrowser ((ctx.source.browser.map fun b => eqIgnoreAsciiCase b browser).getD false)
      browser
  | .sourceProfile profile =>
    .sourceProfile ((ctx.source.profile.map fun p => p == profile).getD false) profile

/-- `of.iter().map(|m| eval_tree(m, ctx)).collect()`. -/
def evalTrees (ctx : RoutingContext) : List MatcherTree → List MatcherEval
  | [] => []
  | t :: ts => evalTree ctx t :: evalTrees ctx ts

end

/-! ## The rule loop -/

/-- `default_target_decision`. -/
def defaultTargetDecision (defaultTarget : BrowserTarget) (reason : String) : RoutingDecision :=
  if defaultTarget.browser = "system" then
    .ask [] (reason ++ "; default target not configured")
  else .openWith defaultTarget none reason

/-- `decide_from_action`. -/
def decideFromAction (action : Action) (matchedRule : Option RuleId) (note : Option String) :
    RoutingDecision :=
  let reason := note.getD "matched rule"
  match action with
  | .openWith target => .openWith target matchedRule reason
  | .keepSource => .allow reason
  | .ask => .ask [] reason
  | .block => .block reason

/-- The workspace gate: a dangling reference counts as enabled. -/
def workspaceEnabled (doc : ConfigDocument) : Option String → Bool
  | none => true
  | some wsId => ((doc.workspaces.find? fun w => w.id == wsId).map Workspace.enabled).getD true

/-- What the loop makes of a rule that matched. -/
def explainRule (ctx : RoutingContext) (rule : Rule) : Explained where
  decision := decideFromAction rule.action (some rule.id) rule.note
  explanation := some (evalTree urlParse ctx rule.when)

/-- The `for rule in &self.config.rules` loop with its accumulator `skipped_ask`, and what
follows the loop. -/
def evaluateRules (doc : ConfigDocument) (ctx : RoutingContext) (shortcutPressed : Bool) :
    List Rule → Option Explained → Explained
  | [], some skipped =>
    match skipped.decision with
    | .ask candidates reason =>
      { skipped with
        decision := .ask candidates ("Ask quick open: no later rule matched — " ++ reason) }
    | _ => skipped
  | [], none =>
    ⟨defaultTargetDecision doc.defaultTarget "default target (no rule matched)", none⟩
  | rule :: rules, skippedAsk =>
    if !rule.enabled then evaluateRules doc ctx shortcutPressed rules skippedAsk
    else if !workspaceEnabled doc rule.workspaceId then
      evaluateRules doc ctx shortcutPressed rules skippedAsk
    else if (evalTree urlParse ctx rule.when).matched then
      let explained := explainRule urlParse ctx rule
      if shortcutPressed && rule.action.isAsk then
        evaluateRules doc ctx shortcutPressed rules
          (if skippedAsk.isNone then some explained else skippedAsk)
      else if skippedAsk.isSome then
        { explained with decision := explained.decision.prependReason "Ask quick open — " }
      else explained
    else evaluateRules doc ctx shortcutPressed rules skippedAsk

/-- `Router::evaluate_explained_with_ask_shortcut`. -/
def evaluateExplainedWithAskShortcut (doc : ConfigDocument) (ctx : RoutingContext)
    (shortcutPressed : Bool) : Explained :=
  if !doc.settings.smartRoutingEnabled then
    ⟨defaultTargetDecision doc.defaultTarget "smart routing disabled — default target", none⟩
  else evaluateRules urlParse doc ctx shortcutPressed doc.rules none

/-- `Router::evaluate_explained`. -/
def evaluateExplained (doc : ConfigDocument) (ctx : RoutingContext) : Explained :=
  evaluateExplainedWithAskShortcut urlParse doc ctx false

/-- `Router::evaluate`. -/
def evaluate (doc : ConfigDocument) (ctx : RoutingContext) : RoutingDecision :=
  (evaluateExplained urlParse doc ctx).decision

/-! ## Which rule decides -/

/-- The rule is enabled and in no disabled workspace. -/
def eligible (doc : ConfigDocument) (rule : Rule) : Bool :=
  rule.enabled && workspaceEnabled doc rule.workspaceId

/-- The rule is eligible and its matcher holds. -/
def fires (doc : ConfigDocument) (ctx : RoutingContext) (rule : Rule) : Bool :=
  eligible doc rule && (evalTree urlParse ctx rule.when).matched

def firstMatch (doc : ConfigDocument) (ctx : RoutingContext) : Option Rule :=
  doc.rules.find? (fires urlParse doc ctx)

/-- The first firing rule that is not an Ask. -/
def firstNonAsk (doc : ConfigDocument) (ctx : RoutingContext) : Option Rule :=
  doc.rules.find? fun r => fires urlParse doc ctx r && !r.action.isAsk

/-- The document with every Ask rule deleted. -/
def withoutAsk (doc : ConfigDocument) : ConfigDocument :=
  { doc with rules := doc.rules.filter fun r => !r.action.isAsk }

variable {doc : ConfigDocument} {ctx : RoutingContext}

/-- One turn of the loop, with the two gates and the match folded into `fires`. -/
theorem evaluateRules_cons (pressed : Bool) (rule : Rule) (rules : List Rule)
    (skipped : Option Explained) :
    evaluateRules urlParse doc ctx pressed (rule :: rules) skipped =
      if fires urlParse doc ctx rule then
        if pressed && rule.action.isAsk then
          evaluateRules urlParse doc ctx pressed rules
            (skipped.or (some (explainRule urlParse ctx rule)))
        else if skipped.isSome then
          { explainRule urlParse ctx rule with
            decision := (explainRule urlParse ctx rule).decision.prependReason
              "Ask quick open — " }
        else explainRule urlParse ctx rule
      else evaluateRules urlParse doc ctx pressed rules skipped := by
  rw [evaluateRules]
  unfold fires eligible
  cases rule.enabled <;> cases workspaceEnabled doc rule.workspaceId <;>
    cases (evalTree urlParse ctx rule.when).matched <;> cases skipped <;> simp

/-- The loop reads the document and the context only through the rules that fire and what they
decide, and the default target. -/
theorem evaluateRules_congr {doc' : ConfigDocument} {ctx' : RoutingContext} {pressed : Bool}
    {rules : List Rule} (hdefault : doc'.defaultTarget = doc.defaultTarget)
    (h : ∀ r ∈ rules, fires urlParse doc' ctx' r = fires urlParse doc ctx r ∧
      explainRule urlParse ctx' r = explainRule urlParse ctx r) (skipped : Option Explained) :
    evaluateRules urlParse doc' ctx' pressed rules skipped =
      evaluateRules urlParse doc ctx pressed rules skipped := by
  induction rules generalizing skipped with
  | nil => cases skipped <;> simp only [evaluateRules, hdefault]
  | cons r rules ih =>
    obtain ⟨⟨hfires, hexplain⟩, hrules⟩ := List.forall_mem_cons.mp h
    rw [evaluateRules_cons, evaluateRules_cons, hfires, hexplain]
    simp only [ih hrules]

/-- The loop passes over the rules that do not fire. -/
theorem evaluateRules_filter (pressed : Bool) (rules : List Rule) (skipped : Option Explained) :
    evaluateRules urlParse doc ctx pressed (rules.filter (fires urlParse doc ctx)) skipped =
      evaluateRules urlParse doc ctx pressed rules skipped := by
  induction rules generalizing skipped with
  | nil => rfl
  | cons r rules ih =>
    rw [List.filter_cons, evaluateRules_cons urlParse pressed r]
    split
    · rename_i hfires
      rw [evaluateRules_cons, if_pos hfires]
      simp only [ih]
    · exact ih skipped

/-- **Shortcut released**: the first firing rule decides, else the default target. -/
theorem evaluateRules_released (rules : List Rule) :
    evaluateRules urlParse doc ctx false rules none =
      match rules.find? (fires urlParse doc ctx) with
      | some r => explainRule urlParse ctx r
      | none =>
        ⟨defaultTargetDecision doc.defaultTarget "default target (no rule matched)", none⟩ := by
  induction rules with
  | nil => rfl
  | cons r rules ih =>
    rw [evaluateRules_cons, List.find?_cons]
    cases fires urlParse doc ctx r
    · simpa using ih
    · simp

/-- What the loop returns when it ends on a skipped Ask. -/
def noLaterRule (skipped : Explained) : Explained :=
  match skipped.decision with
  | .ask candidates reason =>
    { skipped with
      decision := .ask candidates ("Ask quick open: no later rule matched — " ++ reason) }
  | _ => skipped

/-- **Shortcut held**: the first firing rule that is not an Ask decides, its reason marked when
an Ask was skipped before it; without one, the first skipped Ask; without that, the default. -/
theorem evaluateRules_held (rules : List Rule) (skipped : Option Explained) :
    evaluateRules urlParse doc ctx true rules skipped =
      match rules.find? fun r => fires urlParse doc ctx r && !r.action.isAsk with
      | some r =>
        if skipped.isSome ||
            ((rules.find? (fires urlParse doc ctx)).any fun r => r.action.isAsk) then
          { explainRule urlParse ctx r with
            decision := (explainRule urlParse ctx r).decision.prependReason "Ask quick open — " }
        else explainRule urlParse ctx r
      | none =>
        match skipped.or
            ((rules.find? (fires urlParse doc ctx)).map (explainRule urlParse ctx)) with
        | some e => noLaterRule e
        | none =>
          ⟨defaultTargetDecision doc.defaultTarget "default target (no rule matched)", none⟩ := by
  induction rules generalizing skipped with
  | nil => cases skipped <;> rfl
  | cons r rules ih =>
    rw [evaluateRules_cons, List.find?_cons, List.find?_cons]
    cases hf : fires urlParse doc ctx r
    · simpa [hf] using ih skipped
    · cases ha : r.action.isAsk
      · simp [ha]
      · have hs : ∀ e : Explained, (skipped.or (some e)).isSome = true := by
          intro e
          cases skipped <;> rfl
        rw [ih]
        cases skipped <;> simp [ha]

/-- Routing does not read `meta`. -/
theorem evaluate_of_body_eq {d e : ConfigDocument} (h : d.body = e.body) (ctx : RoutingContext) :
    evaluate urlParse d ctx = evaluate urlParse e ctx := by
  rw [ConfigDocument.eq_withMeta_of_body_eq h]
  have hfires : fires urlParse (e.withMeta d.metaBlock) ctx = fires urlParse e ctx := rfl
  unfold evaluate evaluateExplained evaluateExplainedWithAskShortcut
  rw [evaluateRules_released, evaluateRules_released, hfires]
  rfl

/-- Evaluation of the document without its Ask rules: its first match is the first firing rule
of the whole document that is not an Ask. -/
theorem firstMatch_withoutAsk (doc : ConfigDocument) (ctx : RoutingContext) :
    firstMatch urlParse (withoutAsk doc) ctx = firstNonAsk urlParse doc ctx := by
  have hfires : fires urlParse (withoutAsk doc) ctx = fires urlParse doc ctx := rfl
  unfold firstMatch firstNonAsk
  rw [hfires]
  simp only [withoutAsk, List.find?_filter]
  congr 1
  funext r
  cases fires urlParse doc ctx r <;> cases r.action.isAsk <;> rfl

theorem Explained.SameUpToReason.prepend (e : Explained) (s : String) :
    Explained.SameUpToReason { e with decision := e.decision.prependReason s } e := by
  exact ⟨RoutingDecision.prependReason_withReason _ _ _, rfl⟩

/-- A skipped Ask keeps everything but its reason. -/
theorem noLaterRule_same (e : Explained) : Explained.SameUpToReason (noLaterRule e) e := by
  unfold noLaterRule
  split
  · rename_i c r h
    exact ⟨by rw [h]; rfl, rfl⟩
  · exact ⟨rfl, rfl⟩

theorem smart_off (h : doc.settings.smartRoutingEnabled = false) (pressed : Bool) :
    evaluateExplainedWithAskShortcut urlParse doc ctx pressed =
      ⟨defaultTargetDecision doc.defaultTarget "smart routing disabled — default target",
        none⟩ := by
  simp [evaluateExplainedWithAskShortcut, h]

theorem smart_on (h : doc.settings.smartRoutingEnabled = true) (pressed : Bool) :
    evaluateExplainedWithAskShortcut urlParse doc ctx pressed =
      evaluateRules urlParse doc ctx pressed doc.rules none := by
  simp [evaluateExplainedWithAskShortcut, h]

/-- Without a first Ask, the first match and the first match that is not an Ask agree. -/
theorem firstNonAsk_of_no_ask
    (h : ∀ r, firstMatch urlParse doc ctx = some r → r.action.isAsk = false) :
    firstNonAsk urlParse doc ctx = firstMatch urlParse doc ctx := by
  unfold firstNonAsk
  unfold firstMatch at h ⊢
  generalize doc.rules = rules at h ⊢
  induction rules with
  | nil => rfl
  | cons r rules ih =>
    rw [List.find?_cons] at h
    rw [List.find?_cons, List.find?_cons]
    cases hf : fires urlParse doc ctx r
    · simp only [hf] at h
      simpa using ih h
    · simp only [hf] at h
      simp [h r rfl]

/-- The shortcut changes nothing unless the first match is an Ask. -/
theorem shortcut_noop
    (h : ∀ r, firstMatch urlParse doc ctx = some r → r.action.isAsk = false) :
    evaluateExplainedWithAskShortcut urlParse doc ctx true =
      evaluateExplainedWithAskShortcut urlParse doc ctx false := by
  have hn := firstNonAsk_of_no_ask urlParse h
  unfold firstNonAsk at hn
  cases hs : doc.settings.smartRoutingEnabled
  · rw [smart_off urlParse hs, smart_off urlParse hs]
  · rw [smart_on urlParse hs, smart_on urlParse hs, evaluateRules_held, evaluateRules_released, hn]
    unfold firstMatch at h ⊢
    cases hm : doc.rules.find? (fires urlParse doc ctx) with
    | none => rfl
    | some r => simp [h r hm]

/-- After a first Ask, the rules that are not Asks decide as they would alone. -/
theorem shortcut_skips_ask {a r : Rule} (hs : doc.settings.smartRoutingEnabled = true)
    (ha : firstMatch urlParse doc ctx = some a) (hask : a.action.isAsk = true)
    (hr : firstNonAsk urlParse doc ctx = some r) :
    evaluateExplainedWithAskShortcut urlParse doc ctx true =
        { explainRule urlParse ctx r with
          decision := (explainRule urlParse ctx r).decision.prependReason
            "Ask quick open — " } ∧
      evaluateExplained urlParse (withoutAsk doc) ctx = explainRule urlParse ctx r := by
  refine ⟨?_, ?_⟩
  · unfold firstMatch at ha
    unfold firstNonAsk at hr
    rw [smart_on urlParse hs, evaluateRules_held, hr, ha]
    simp [hask]
  · have hm := firstMatch_withoutAsk urlParse doc ctx
    rw [hr] at hm
    unfold firstMatch at hm
    have hs' : (withoutAsk doc).settings.smartRoutingEnabled = true := hs
    rw [evaluateExplained, smart_on urlParse hs', evaluateRules_released, hm]

/-- After a first Ask with nothing else to fire, that Ask stands. -/
theorem shortcut_keeps_ask {a : Rule} (hs : doc.settings.smartRoutingEnabled = true)
    (ha : firstMatch urlParse doc ctx = some a) (hr : firstNonAsk urlParse doc ctx = none) :
    evaluateExplainedWithAskShortcut urlParse doc ctx true =
      noLaterRule (explainRule urlParse ctx a) := by
  unfold firstMatch at ha
  unfold firstNonAsk at hr
  rw [smart_on urlParse hs, evaluateRules_held, hr, ha]
  rfl

/-- A firing rule is what decides, whatever the shortcut: the default target is not used. -/
theorem decided_by_rule {rule : Rule} (hs : doc.settings.smartRoutingEnabled = true)
    (hmem : rule ∈ doc.rules) (hf : fires urlParse doc ctx rule = true) (pressed : Bool) :
    ∃ r ∈ doc.rules, fires urlParse doc ctx r = true ∧
      (evaluateExplainedWithAskShortcut urlParse doc ctx pressed).SameUpToReason
        (explainRule urlParse ctx r) := by
  obtain ⟨a, ha⟩ : ∃ a, firstMatch urlParse doc ctx = some a := by
    cases hm : firstMatch urlParse doc ctx with
    | none => exact absurd hf (by simpa using List.find?_eq_none.mp hm rule hmem)
    | some a => exact ⟨a, rfl⟩
  have hfirst : ∀ {p : Rule → Bool} {r : Rule}, doc.rules.find? p = some r →
      r ∈ doc.rules ∧ p r = true := fun h => ⟨List.mem_of_find?_eq_some h, List.find?_some h⟩
  have hreleased : evaluateExplainedWithAskShortcut urlParse doc ctx false =
      explainRule urlParse ctx a := by
    unfold firstMatch at ha
    rw [smart_on urlParse hs, evaluateRules_released, ha]
  have hA := hfirst ha
  cases pressed
  · exact ⟨a, hA.1, hA.2, by rw [hreleased]; exact ⟨rfl, rfl⟩⟩
  · cases hask : a.action.isAsk
    · refine ⟨a, hA.1, hA.2, ?_⟩
      rw [shortcut_noop urlParse (by intro r hr; rw [ha] at hr; cases hr; exact hask), hreleased]
      exact ⟨rfl, rfl⟩
    · cases hr : firstNonAsk urlParse doc ctx with
      | none =>
        refine ⟨a, hA.1, hA.2, ?_⟩
        rw [shortcut_keeps_ask urlParse hs ha hr]
        exact noLaterRule_same _
      | some r =>
        have hR := hfirst hr
        refine ⟨r, hR.1, (Bool.and_eq_true_iff.mp hR.2).1, ?_⟩
        rw [(shortcut_skips_ask urlParse hs ha hask hr).1]
        exact Explained.SameUpToReason.prepend _ _

/-- **Ask-shortcut refinement.** With smart routing on: the shortcut changes nothing unless the
first match is an Ask; then the result is, up to the reason, that of the document without its Ask
rules when one of those fires, and otherwise the first Ask; and a matched Ask rule always leaves
the decision to a rule.  With smart routing off the shortcut has no effect. -/
theorem askShortcut_refines (doc : ConfigDocument) (ctx : RoutingContext) :
    (doc.settings.smartRoutingEnabled = true →
      ((∀ r, firstMatch urlParse doc ctx = some r → r.action.isAsk = false) →
        evaluateExplainedWithAskShortcut urlParse doc ctx true =
          evaluateExplainedWithAskShortcut urlParse doc ctx false) ∧
      (∀ a, firstMatch urlParse doc ctx = some a → a.action.isAsk = true →
        ((firstNonAsk urlParse doc ctx).isSome = true →
          (evaluateExplainedWithAskShortcut urlParse doc ctx true).SameUpToReason
            (evaluateExplained urlParse (withoutAsk doc) ctx)) ∧
        (firstNonAsk urlParse doc ctx = none →
          (evaluateExplainedWithAskShortcut urlParse doc ctx true).SameUpToReason
            (explainRule urlParse ctx a))) ∧
      (∀ rule ∈ doc.rules, fires urlParse doc ctx rule = true → rule.action.isAsk = true →
        ∀ pressed, ∃ r ∈ doc.rules, fires urlParse doc ctx r = true ∧
          (evaluateExplainedWithAskShortcut urlParse doc ctx pressed).SameUpToReason
            (explainRule urlParse ctx r))) ∧
    (doc.settings.smartRoutingEnabled = false → ∀ pressed,
      evaluateExplainedWithAskShortcut urlParse doc ctx pressed =
        ⟨defaultTargetDecision doc.defaultTarget "smart routing disabled — default target",
          none⟩) := by
  refine ⟨fun hs => ⟨shortcut_noop urlParse, fun a ha hask => ⟨fun hr => ?_, fun hr => ?_⟩,
    fun rule hmem hf _ pressed => decided_by_rule urlParse hs hmem hf pressed⟩,
    fun hs => smart_off urlParse hs⟩
  · obtain ⟨r, hr⟩ := Option.isSome_iff_exists.mp hr
    obtain ⟨hheld, halone⟩ := shortcut_skips_ask urlParse hs ha hask hr
    rw [hheld, halone]
    exact Explained.SameUpToReason.prepend _ _
  · rw [shortcut_keeps_ask urlParse hs ha hr]
    exact noLaterRule_same _

end Router

end LinkPilot
