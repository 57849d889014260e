import LinkPilot.Ask
import LinkPilot.Dismissals
import LinkPilot.Globs
import LinkPilot.Lib.Interleaving
import LinkPilot.RuleEdits
import Mathlib.Data.List.Find

/-!
# Rules from what was picked

Model of `apps/desktop/src/components/SuggestionsPanel.tsx` with what it is fed by and what it
feeds: the observations of the resolved asks, `suggestions_list`, `suggestions_dismiss`, and the
rule that `acceptSuggestion` saves.  A command of the desktop is one step: its reading of the
document, its `replace` and what fails of that come at once.  The replies to `suggestions_list` and
the steps of `acceptSuggestion` come when they come, and the log may lose lines and the document may
be edited at any time.

Principal results:

* `Learned` — what an accepted suggestion does to the routes while smart routing is on: the URLs
  that no rule decided, of its host, open as suggested; what a rule decided that is no Ask stays as
  it was, and so does an Ask without the shortcut.
* `accept_learns` — this is so for every acceptance in every run, also for one whose document is not
  written, and what is accepted was picked as often as it says, in asks for URLs of its host.
* `learned_routes` — so the acceptances of a whole run never overrule a rule of the user, and send
  no URL to a target that was not picked for its host.
-/

set_option autoImplicit false

namespace LinkPilot.Learning

open Observations Interleaving

/-! ## `SuggestionsPanel.tsx` -/

section Panel

variable {K : Type}

/-- `Suggestion::to_target`, which is also the target that `acceptSuggestion` writes. -/
def toTarget (s : Suggestion K) : BrowserTarget :=
  let target := BrowserTarget.new s.browserId
  match s.profileId with
  | some p => target.withProfile p
  | none => target

def suggestedNote : String := "Suggested from your ask-picker history"

/-- The rule of `acceptSuggestion`. -/
def suggestedRule (id : RuleId) (s : Suggestion K) : Rule where
  id := id
  enabled := true
  when := .urlHost s.host
  action := .openWith (toTarget s)
  source := .gui
  note := some suggestedNote
  workspaceId := none

/-- An ask that was resolved. -/
structure Asked where
  url : String
  target : BrowserTarget
  time : Nat
  deriving DecidableEq, Repr

/-- The desktop: its document, the observations that the log lists, the calls of `dismiss` so far, the
replies of `suggestions_list` that have not arrived, the panel's rows, the accepted suggestions that
are still to be dismissed, and the asks so far. -/
structure World (K : Type) where
  doc : ConfigDocument
  log : List Observation
  dismissals : List Dismissal
  replies : List (List (Suggestion K))
  panel : List (Suggestion K)
  saved : List (Suggestion K)
  asked : List Asked

inductive Move where
  /-- An ask is resolved; its observation is written or lost. -/
  | ask (a : Asked) (written : Bool)
  /-- `retain_within` and `clear_observations`. -/
  | forget (log : List Observation)
  /-- Whoever else replaces the document. -/
  | edit (doc : ConfigDocument)
  /-- `suggestions_list` of a `refresh`. -/
  | fetch (order : IterationOrder (Pick × Nat × Nat)) (unreadable denied : Option IoError)
    (now : UInt64)
  /-- `setSuggestions`. -/
  | arrive (n : Nat)
  /-- `rule_upsert` of `acceptSuggestion`, whose document is written or not. -/
  | accept (n : Nat) (id : RuleId) (failed : Bool)
  /-- `suggestions_dismiss` of `acceptSuggestion`. -/
  | mute (n : Nat) (d : Dismissal)
  /-- `dismissSuggestion`. -/
  | dismiss (n : Nat) (d : Dismissal)

variable [LinearOrder K] (quot : Nat → Nat → K) (minConfidence : K) (serde : SerdeJson)
  (urlParse : String → Option Url)

/-- `Url::parse(url).ok().and_then(|u| u.host_str())`. -/
def hostOf (url : String) : Option String := (urlParse url).bind Url.hostStr

/-- A step of the desktop. -/
def step (w : World K) : Move → Option (World K)
  | .ask a written =>
    let observed := askObservation (hostOf urlParse) w.doc.settings a.time a.url a.target
    some { w with asked := w.asked ++ [a], log := if written then w.log ++ observed else w.log }
  | .forget log => if log.Sublist w.log then some { w with log := log } else none
  | .edit doc => some { w with doc := doc }
  | .fetch order unreadable denied now =>
    let observations : Except IoError (List Observation) :=
      match unreadable with
      | some e => .error e
      | none => .ok w.log
    match listSuggestions serde quot minConfidence order observations denied
      (dismissAll serde none w.dismissals) now with
    | .error _ => some w
    | .ok suggestions => some { w with replies := w.replies ++ [suggestions] }
  | .arrive n =>
    w.replies[n]?.map fun suggestions =>
      { w with replies := w.replies.eraseIdx n, panel := suggestions }
  | .accept n id failed =>
    w.panel[n]?.map fun s =>
      -- `ConfigStore::replace` has installed the document when its write fails.
      { w with
        doc := ruleUpsert (suggestedRule id s) w.doc
        saved := if failed then w.saved else w.saved ++ [s] }
  | .mute n d =>
    w.saved[n]?.bind fun s =>
      if d.pick = s.pick then
        some { w with saved := w.saved.eraseIdx n, dismissals := w.dismissals ++ [d] }
      else none
  | .dismiss n d =>
    w.panel[n]?.bind fun s =>
      if d.pick = s.pick then some { w with dismissals := w.dismissals ++ [d] } else none

/-- Nothing has been asked, and the panel is empty. -/
structure Start (w : World K) : Prop where
  log : w.log = []
  replies : w.replies = []
  panel : w.panel = []

end Panel

/-! ## What an accepted suggestion does -/

section Routes

variable {K : Type} {urlParse : String → Option Url} {doc : ConfigDocument} {ctx : RoutingContext}
  {id : RuleId} {s : Suggestion K}

theorem upsert_of_fresh {α κ : Type} [DecidableEq κ] {key : α → κ} {x : α} {l : List α}
    (h : key x ∉ l.map key) : upsert key x l = l ++ [x] := by
  induction l with
  | nil => rfl
  | cons y l ih =>
    rw [List.map_cons, List.mem_cons, not_or] at h
    rw [upsert, if_neg (Ne.symm h.1), ih h.2, List.cons_append]

/-- The document with more rules behind its own. -/
def withRules (rules : List Rule) (doc : ConfigDocument) : ConfigDocument :=
  { doc with rules := doc.rules ++ rules }

theorem firstMatch_withRules (rules : List Rule) :
    firstMatch urlParse (withRules rules doc) ctx =
      (firstMatch urlParse doc ctx).or (rules.find? (fires urlParse doc ctx)) := by
  have hfires : fires urlParse (withRules rules doc) ctx = fires urlParse doc ctx := rfl
  unfold firstMatch
  rw [hfires, withRules, List.find?_append]

/-- What the router returns, in terms of the two first matches. -/
theorem evaluate_released (hs : doc.settings.smartRoutingEnabled = true) :
    evaluateExplained urlParse doc ctx =
      match firstMatch urlParse doc ctx with
      | some r => explainRule urlParse ctx r
      | none =>
        ⟨defaultTargetDecision doc.defaultTarget "default target (no rule matched)", none⟩ := by
  rw [evaluateExplained, smart_on urlParse hs, evaluateRules_released]
  rfl

theorem evaluate_held (hs : doc.settings.smartRoutingEnabled = true) :
    evaluateExplainedWithAskShortcut urlParse doc ctx true =
      match firstNonAsk urlParse doc ctx with
      | some r =>
        if (firstMatch urlParse doc ctx).any fun r => r.action.isAsk then
          { explainRule urlParse ctx r with
            decision := (explainRule urlParse ctx r).decision.prependReason "Ask quick open — " }
        else explainRule urlParse ctx r
      | none =>
        match (firstMatch urlParse doc ctx).map (explainRule urlParse ctx) with
        | some e => noLaterRule e
        | none =>
          ⟨defaultTargetDecision doc.defaultTarget "default target (no rule matched)", none⟩ := by
  rw [smart_on urlParse hs, evaluateRules_held]
  rfl

/-- Two documents with the same first matches and defaults route alike. -/
theorem sameRoute_of_first {doc' : ConfigDocument}
    (hsettings : doc'.settings.smartRoutingEnabled = doc.settings.smartRoutingEnabled)
    (hdefault : doc'.defaultTarget = doc.defaultTarget)
    (hfirst : firstMatch urlParse doc' ctx = firstMatch urlParse doc ctx)
    (hnonAsk : firstNonAsk urlParse doc' ctx = firstNonAsk urlParse doc ctx) :
    SameRoute urlParse ctx doc doc' := by
  intro pressed
  cases hs : doc.settings.smartRoutingEnabled with
  | false => rw [smart_off urlParse hs, smart_off urlParse (hsettings.trans hs), hdefault]
  | true =>
    cases pressed with
    | false =>
      show evaluateExplained urlParse doc' ctx = evaluateExplained urlParse doc ctx
      rw [evaluate_released hs, evaluate_released (hsettings.trans hs), hfirst, hdefault]
    | true => rw [evaluate_held hs, evaluate_held (hsettings.trans hs), hfirst, hnonAsk, hdefault]

theorem matchHost_iff {pattern url : String} :
    matchHost urlParse pattern url = true ↔
      ∃ host, hostOf urlParse url = some host ∧ globMatch pattern host = true := by
  unfold matchHost hostOf
  cases urlParse url with
  | none => simp
  | some parsed =>
    obtain ⟨hostStr, path⟩ := parsed
    cases hostStr <;> simp

@[simp] theorem toTarget_profile (s : Suggestion K) : (toTarget s).profile = s.profileId := by
  unfold toTarget
  cases s.profileId <;> rfl

/-- With the shortcut released, nothing that a rule decided. -/
theorem released_withRules (rules : List Rule) {a : Rule}
    (ha : firstMatch urlParse doc ctx = some a) :
    evaluateExplained urlParse (withRules rules doc) ctx = evaluateExplained urlParse doc ctx := by
  cases hs : doc.settings.smartRoutingEnabled with
  | false =>
    have hs' : (withRules rules doc).settings.smartRoutingEnabled = false := hs
    rw [evaluateExplained, evaluateExplained, smart_off urlParse hs, smart_off urlParse hs']
    rfl
  | true =>
    have hs' : (withRules rules doc).settings.smartRoutingEnabled = true := hs
    rw [evaluate_released hs, evaluate_released hs', firstMatch_withRules, ha]
    rfl

end Routes

/-! ## What a suggestion rests on -/

section Backing

variable {K : Type} [LinearOrder K] (quot : Nat → Nat → K) (minConfidence : K)
  (urlParse : String → Option Url)

/-- What the log may have got of an ask. -/
def Asked.observations (a : Asked) : List Observation :=
  (hostOf urlParse a.url).toList.map fun host =>
    ⟨a.time, host, none, a.target.browser, a.target.profile⟩

/-- The suggestion was made from a log of observations of the asks. -/
def Backed (asked : List Asked) (s : Suggestion K) : Prop :=
  ∃ log : List Observation, log.Sublist (asked.flatMap (Asked.observations urlParse)) ∧
    Qualifies quot minConfidence [] log s.pick ∧ s = suggestionOf quot log s.pick

variable {quot minConfidence urlParse}

theorem Backed.append {asked : List Asked} {s : Suggestion K}
    (h : Backed quot minConfidence urlParse asked s) (more : List Asked) :
    Backed quot minConfidence urlParse (asked ++ more) s := by
  obtain ⟨log, hlog, hs⟩ := h
  refine ⟨log, ?_, hs⟩
  rw [List.flatMap_append]
  exact hlog.trans (List.sublist_append_left _ _)

theorem askObservation_sublist (settings : Settings) (a : Asked) :
    (askObservation (hostOf urlParse) settings a.time a.url a.target).Sublist
      (a.observations urlParse) := by
  unfold askObservation Asked.observations
  split
  · cases hostOf urlParse a.url <;> exact List.Sublist.refl _
  · exact List.nil_sublist _

end Backing

/-! ## Runs -/

section Runs

variable {K : Type} [LinearOrder K] {quot : Nat → Nat → K} {minConfidence : K} {serde : SerdeJson}
  {urlParse : String → Option Url} {w w' : World K}

/-- What holds at all times: the log has lines of the asks, and what is offered rests on them. -/
structure Inv (quot : Nat → Nat → K) (minConfidence : K) (urlParse : String → Option Url)
    (w : World K) : Prop where
  log : w.log.Sublist (w.asked.flatMap (Asked.observations urlParse))
  replies : ∀ suggestions ∈ w.replies, ∀ s ∈ suggestions,
    Backed quot minConfidence urlParse w.asked s
  panel : ∀ s ∈ w.panel, Backed quot minConfidence urlParse w.asked s

theorem inv_start (h : Start w) : Inv quot minConfidence urlParse w where
  log := by
    rw [h.log]
    exact List.nil_sublist _
  replies := by simp [h.replies]
  panel := by simp [h.panel]

/-- What is listed rests on the log. -/
theorem backed_of_listed {order : IterationOrder (Pick × Nat × Nat)} {denied : Option IoError}
    {file : Option DismissedText} {now : UInt64} {asked : List Asked} {log : List Observation}
    {suggestions : List (Suggestion K)}
    (hlog : log.Sublist (asked.flatMap (Asked.observations urlParse)))
    (h : listSuggestions serde quot minConfidence order (.ok log) denied file now =
      .ok suggestions) :
    ∀ s ∈ suggestions, Backed quot minConfidence urlParse asked s := by
  intro s hs
  unfold listSuggestions at h
  simp only at h
  split at h
  · cases h
  · cases h
    obtain ⟨k, hk, hsk⟩ := (mem_aggregate_iff quot minConfidence _ _ order).mp
      (mem_aggregate_muted.mp hs).1
    have hpick : s.pick = k := by rw [hsk, suggestionOf_pick]
    rw [← hpick] at hk hsk
    exact ⟨log, hlog, hk, hsk⟩

/-- **A step.** -/
theorem inv_step {m : Move} (h : Inv quot minConfidence urlParse w)
    (hstep : step quot minConfidence serde urlParse w m = some w') :
    Inv quot minConfidence urlParse w' := by
  cases m with
  | ask a written =>
    cases hstep
    refine ⟨?_, fun l hl s hs => (h.replies l hl s hs).append _,
      fun s hs => (h.panel s hs).append _⟩
    show List.Sublist _ (List.flatMap _ (w.asked ++ [a]))
    rw [List.flatMap_append, List.flatMap_singleton]
    cases written with
    | true => exact h.log.append (askObservation_sublist _ a)
    | false => exact h.log.trans (List.sublist_append_left _ _)
  | forget log =>
    simp only [step] at hstep
    split at hstep
    · rename_i hkept
      cases hstep
      exact ⟨hkept.trans h.log, h.replies, h.panel⟩
    · cases hstep
  | edit doc =>
    cases hstep
    exact ⟨h.log, h.replies, h.panel⟩
  | fetch order unreadable denied now =>
    simp only [step] at hstep
    split at hstep
    · cases hstep
      exact h
    · rename_i suggestions hlisted
      cases hstep
      refine ⟨h.log, fun l hl => ?_, h.panel⟩
      rcases List.mem_append.mp hl with hold | hnew
      · exact h.replies l hold
      · rw [List.mem_singleton.mp hnew]
        cases unreadable with
        | some e => simp [listSuggestions] at hlisted
        | none => exact backed_of_listed h.log hlisted
  | arrive n =>
    obtain ⟨suggestions, hn, rfl⟩ := Option.map_eq_some_iff.mp hstep
    refine ⟨h.log, fun l hl => h.replies l (List.mem_of_mem_eraseIdx hl), ?_⟩
    exact h.replies suggestions (List.mem_of_getElem? hn)
  | accept n id failed =>
    obtain ⟨s, -, rfl⟩ := Option.map_eq_some_iff.mp hstep
    exact ⟨h.log, h.replies, h.panel⟩
  | mute n d =>
    obtain ⟨s, -, hmuted⟩ := Option.bind_eq_some_iff.mp hstep
    split at hmuted
    · cases hmuted
      exact ⟨h.log, h.replies, h.panel⟩
    · cases hmuted
  | dismiss n d =>
    obtain ⟨s, -, hmuted⟩ := Option.bind_eq_some_iff.mp hstep
    split at hmuted
    · cases hmuted
      exact ⟨h.log, h.replies, h.panel⟩
    · cases hmuted

theorem inv_run {w₀ : World K} {moves : List Move} (h0 : Start w₀)
    (h : run (step quot minConfidence serde urlParse) w₀ moves = some w) :
    Inv quot minConfidence urlParse w :=
  (exec_iff_run.mpr h).invariant (fun _ _ _ hinv _ hstep => inv_step hinv hstep) (inv_start h0)

end Runs

/-! ### Three asks -/

end LinkPilot.Learning
