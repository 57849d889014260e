import LinkPilot.Explain
import LinkPilot.RouteOpen

/-!
# `lpt open` with and without a daemon

The two ways in which `lpt open` (`run_open` of `crates/cli/src/main.rs`) can end: the headless
daemon answers, or `lpt` finds no daemon and opens the URL itself.  Document, URL, source and
launcher are the same.

* `run_answered`, `run_fallback` — what the two runs leave.
* `alike_iff` — they make the same launcher calls and agree on success exactly when no Block rule
  decides.
* `block_differs` — a blocked URL is a success with a daemon and an error without one.
-/

set_option autoImplicit false

namespace LinkPilot.RouteOpen

open Interleaving

variable {Text : Type}

/-- The daemon answers. -/
def answered (now : Nat) : List Action :=
  [.begin, .connect, .write, .daemonRead, .daemonEvaluate now, .daemonLaunch, .daemonReply,
    .readReply]

/-- There is no daemon. -/
def withoutDaemon (reason : String) : List Action :=
  [.begin, .fail (.offline reason), .openLocal]

/-- Both runs end, with the same launcher calls, and both in success or both in failure. -/
def Alike (inv : Invocation Text) (w : World Text) (now : Nat) (reason : String) : Prop :=
  ∃ a b ra rb, run (step inv) w (answered now) = some a ∧
    run (step inv) w (withoutDaemon reason) = some b ∧ a.cli = .done ra ∧ b.cli = .done rb ∧
    a.cliLaunches ++ a.daemonLaunches = b.cliLaunches ++ b.daemonLaunches ∧
    (ra = .ok () ↔ rb = .ok ())

/-- `lpt open` without `--local` and `--dry-run`, next to a daemon on the same host whose document
is the one that `lpt` loads from the file. -/
structure SameDocument (inv : Invocation Text) (w : World Text) : Prop where
  start : Start w
  isLocal : inv.isLocal = false
  dryRun : inv.dryRun = false
  host : inv.daemonHost = inv.host
  disk : ∃ store, loadStore inv.codec inv.file inv.env = .ok store ∧
    store.document.body = w.runtime.config.document.body

section Runs

variable {inv : Invocation Text} {w : World Text}

/-- What the daemon decides. -/
def decision (inv : Invocation Text) (w : World Text) : RoutingDecision :=
  evaluate inv.host.urlParse w.runtime.config.document inv.context

theorem run_answered (h : SameDocument inv w) (now : Nat) :
    ∃ a, run (step inv) w (answered now) = some a ∧
      a.cli = afterSend inv
        (.ok (openDecision inv.host inv.requestId inv.context.url (decision inv w)).1) ∧
      a.cliLaunches = [] ∧
      a.daemonLaunches =
        (openDecision inv.host inv.requestId inv.context.url (decision inv w)).2 := by
  have hbegin : (inv.isLocal || inv.dryRun) = false := by rw [h.isLocal, h.dryRun]; rfl
  simp only [answered, run, step, h.start.cli, h.start.daemon, h.start.daemonLaunches, h.host,
    hbegin, Bool.false_eq_true, if_false, if_true]
  exact ⟨_, rfl, rfl, h.start.cliLaunches, rfl⟩

theorem run_fallback (h : SameDocument inv w) (reason : String) :
    ∃ b, run (step inv) w (withoutDaemon reason) = some b ∧ b.cli = .done inv.openLocal.1 ∧
      b.cliLaunches = inv.openLocal.2 ∧ b.daemonLaunches = [] := by
  have hbegin : (inv.isLocal || inv.dryRun) = false := by rw [h.isLocal, h.dryRun]; rfl
  simp only [withoutDaemon, run, step, h.start.cli, h.start.cliLaunches, hbegin, CliPc.mayFail,
    afterSend, tryDaemonRouteOpen, tryDaemon, classifyIpcError, Bool.false_eq_true, if_false,
    if_true]
  exact ⟨_, rfl, rfl, rfl, h.start.daemonLaunches⟩

/-- `lpt` decides as the daemon does. -/
theorem openLocal_eq (h : SameDocument inv w) :
    inv.openLocal =
      match decision inv w with
      | .openWith target _ _ =>
        match inv.host.urlParse inv.url with
        | none => (.error ("parsing URL " ++ inv.url), [])
        | some _ =>
          match inv.host.launch target (inv.host.urlText inv.url) with
          | .error e =>
            (.error ("launcher: " ++ e), [⟨target, inv.host.urlText inv.url, false⟩])
          | .ok () => (.ok (), [⟨target, inv.host.urlText inv.url, true⟩])
      | .allow _ => (.ok (), [])
      | .ask _ _ => (.error "'ask' is not handled in headless CLI mode", [])
      | .block reason => (.error ("blocked: " ++ reason), []) := by
  obtain ⟨store, hload, hbody⟩ := h.disk
  have hdecision : evaluate inv.host.urlParse store.document inv.context = decision inv w :=
    evaluate_of_body_eq _ hbody _
  have hdryRun : ¬ inv.dryRun = true := by
    rw [h.dryRun]
    decide
  rw [← hdecision, Invocation.openLocal, hload]
  exact if_neg hdryRun

/-- The two interpreters of a decision: launcher calls and success are the same, unless it is a
Block. -/
theorem outcomes_iff (h : SameDocument inv w) :
    ∃ ra, afterSend inv
        (.ok (openDecision inv.host inv.requestId inv.context.url (decision inv w)).1) =
          .done ra ∧
      (((openDecision inv.host inv.requestId inv.context.url (decision inv w)).2 =
          inv.openLocal.2 ∧ (ra = .ok () ↔ inv.openLocal.1 = .ok ())) ↔
        ∀ reason, decision inv w ≠ .block reason) := by
  have hurl : inv.context.url = inv.url := rfl
  rw [openLocal_eq h, hurl]
  cases decision inv w with
  | openWith target matchedRule reason =>
    simp only [openDecision]
    cases inv.host.urlParse inv.url with
    | none => exact ⟨_, rfl, iff_of_true ⟨rfl, by simp⟩ (by simp)⟩
    | some url =>
      dsimp only
      cases inv.host.launch target (inv.host.urlText inv.url) with
      | error e => exact ⟨_, rfl, iff_of_true ⟨rfl, by simp⟩ (by simp)⟩
      | ok u => exact ⟨_, rfl, iff_of_true ⟨rfl, by simp⟩ (by simp)⟩
  | allow reason => exact ⟨_, rfl, iff_of_true ⟨rfl, by simp⟩ (by simp)⟩
  | ask candidates reason => exact ⟨_, rfl, iff_of_true ⟨rfl, by simp⟩ (by simp)⟩
  | block reason =>
    refine ⟨_, rfl, iff_of_false ?_ fun hne => hne reason rfl⟩
    rintro ⟨-, hsuccess⟩
    have hblocked := hsuccess.mp rfl
    cases hblocked

end Runs

theorem defaultTargetDecision_ne_block (target : BrowserTarget) (reason reason' : String) :
    defaultTargetDecision target reason ≠ .block reason' := by
  unfold defaultTargetDecision
  split <;> exact nofun

theorem decideFromAction_block_iff {action : LinkPilot.Action} {matchedRule : Option RuleId}
    {note : Option String} :
    (∃ reason, decideFromAction action matchedRule note = .block reason) ↔ action = .block := by
  cases action <;> simp [decideFromAction]

/-- Only a Block rule blocks. -/
theorem evaluate_block_iff {urlParse : String → Option Url} {doc : ConfigDocument}
    {ctx : RoutingContext} :
    (∃ reason, evaluate urlParse doc ctx = .block reason) ↔
      ∃ rule, Decides urlParse doc ctx false rule ∧ rule.action = .block := by
  cases hs : doc.settings.smartRoutingEnabled with
  | false =>
    rw [evaluate_off hs]
    refine iff_of_false ?_ ?_
    · rintro ⟨reason, h⟩
      exact defaultTargetDecision_ne_block _ _ _ h
    · rintro ⟨rule, h, -⟩
      rw [h.1] at hs
      cases hs
  | true =>
    have hdecides : ∀ rule, Decides urlParse doc ctx false rule ↔
        firstMatch urlParse doc ctx = some rule := fun rule => decides_iff hs
    simp only [hdecides]
    cases hr : firstMatch urlParse doc ctx with
    | none =>
      rw [evaluate_of_noMatch hs hr]
      refine iff_of_false ?_ ?_
      · rintro ⟨reason, h⟩
        exact defaultTargetDecision_ne_block _ _ _ h
      · rintro ⟨rule, h, -⟩
        cases h
    | some rule =>
      rw [evaluate_of_firstMatch hs hr, decideFromAction_block_iff]
      constructor
      · intro haction
        exact ⟨rule, rfl, haction⟩
      · rintro ⟨rule', h, haction⟩
        cases h
        exact haction

/-- **With and without a daemon.**  For every document, URL, source and launcher, `lpt open` answered
by the headless daemon and `lpt open` on its own make the same launcher calls and agree on success
exactly when the rule that decides, if there is one, is no Block. -/
theorem alike_iff {inv : Invocation Text} {w : World Text} (h : SameDocument inv w) (now : Nat)
    (reason : String) :
    Alike inv w now reason ↔
      ∀ rule, Decides inv.host.urlParse w.runtime.config.document inv.context false rule →
        rule.action ≠ .block := by
  have hblock : (∀ reason, decision inv w ≠ .block reason) ↔
      ∀ rule, Decides inv.host.urlParse w.runtime.config.document inv.context false rule →
        rule.action ≠ .block := by
    have hiff := @evaluate_block_iff inv.host.urlParse w.runtime.config.document inv.context
    have hnot := not_congr hiff
    push Not at hnot
    exact hnot
  rw [← hblock]
  obtain ⟨a, ha, haCli, haLocal, haDaemon⟩ := run_answered h now
  obtain ⟨b, hb, hbCli, hbLocal, hbDaemon⟩ := run_fallback h reason
  obtain ⟨ra, hra, hagree⟩ := outcomes_iff h
  rw [← hagree]
  constructor
  · rintro ⟨a', b', ra', rb', ha', hb', ha'Cli, hb'Cli, hlaunches, hsuccess⟩
    rw [ha, Option.some.injEq] at ha'
    rw [hb, Option.some.injEq] at hb'
    subst ha'
    subst hb'
    rw [haCli, hra, CliPc.done.injEq] at ha'Cli
    rw [hbCli, CliPc.done.injEq] at hb'Cli
    subst ha'Cli
    subst hb'Cli
    rw [haLocal, haDaemon, hbLocal, hbDaemon, List.nil_append, List.append_nil] at hlaunches
    exact ⟨hlaunches, hsuccess⟩
  · rintro ⟨hlaunches, hsuccess⟩
    refine ⟨a, b, ra, _, ha, hb, haCli.trans hra, hbCli, ?_, hsuccess⟩
    rw [haLocal, haDaemon, hbLocal, hbDaemon, List.nil_append, List.append_nil]
    exact hlaunches

/-! ## A document that opens, and one that blocks -/

theorem openExample_same : SameDocument openExample served :=
  ⟨served_start, rfl, rfl, rfl, _, rfl, rfl⟩

/-- Without rules the default target is opened both ways. -/
theorem alike_iff_default : Alike openExample served 0 "connection refused" := by
  refine (alike_iff openExample_same 0 "connection refused").mpr fun rule h => ?_
  obtain ⟨hmem, -⟩ := h.mem_and_fires
  cases hmem

def blockDocument : ConfigDocument :=
  { chromeDocument with rules := [⟨1, true, .always, .block, .gui, none, none⟩] }

def blockExample : Invocation FileText :=
  { openExample with file := some (.saved blockDocument) }

def blocking : World FileText :=
  { served with
    runtime := ⟨⟨⟨blockDocument, none⟩, some (.saved blockDocument)⟩, RouteHistory.new, "0.1.0"⟩ }

/-- A URL that a rule blocks: with the daemon `lpt open` returns Ok, on its own it fails. -/
theorem block_differs :
    (∃ a, run (step blockExample) blocking (answered 0) = some a ∧ a.cli = .done (.ok ())) ∧
      (∃ b, run (step blockExample) blocking (withoutDaemon "connection refused") = some b ∧
        b.cli = .done (.error "blocked: matched rule")) ∧
      ¬ Alike blockExample blocking 0 "connection refused" := by
  refine ⟨⟨_, rfl, rfl⟩, ⟨_, rfl, rfl⟩, ?_⟩
  rintro ⟨a, b, ra, rb, ha, hb, haCli, hbCli, -, hsuccess⟩
  cases ha
  cases hb
  cases haCli
  cases hbCli
  exact absurd (hsuccess.mp rfl) nofun

end LinkPilot.RouteOpen
