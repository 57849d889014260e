import LinkPilot.Daemon

/-!
# `lpt open`

One invocation of `lpt open URL` next to a headless daemon, after `run_open` of
`crates/cli/src/main.rs`, `send` of `crates/ipc/src/client.rs`, and the `RouteOpen` verb of
`crates/core/src/daemon.rs`.

The client connects, writes the request frame and waits for the response; its timeout runs over
all three.  The daemon reads the frame, evaluates and logs, launches, and replies, each at its own
time: a frame once written stays in the socket when the client has given up.  Each side reads its
configuration once, so the two documents are parameters of the invocation.

Principal results:

* `daemon_steps` — the daemon's steps add up to `DaemonRuntime.handle`.
* `opens_at_most_once` — a run has at most one successful open when no timeout fires on a written
  request whose route opens on both sides; every other finished run has two.
* `slow_daemon_opens_twice` — a daemon slower than the timeout opens the URL a second time.
-/

set_option autoImplicit false

namespace LinkPilot.RouteOpen

open Interleaving

variable {Text : Type}

/-! ## The invocation -/

/-- What one `lpt open` is given and meets: its arguments, the file and the host of its own
process, and the host of the daemon. -/
structure Invocation (Text : Type) where
  url : String
  fromApp : Option String
  fromAppBundleId : Option String
  fromBrowser : Option String
  fromProfile : Option String
  isLocal : Bool
  dryRun : Bool
  requestId : String
  debug : Response → String
  codec : Codec Text
  file : Option Text
  env : LptEnv
  host : Host
  daemonHost : Host

/-- `build_context`. -/
def buildContext (url : String) (fromApp fromAppBundleId fromBrowser fromProfile : Option String) :
    RoutingContext where
  url := url
  source :=
    { kind := if fromBrowser.isSome then .browserExtension else .cli
      appName := fromApp
      bundleId := fromAppBundleId
      browser := fromBrowser
      profile := fromProfile }
  navigation := none
  environment := none

namespace Invocation

def context (inv : Invocation Text) : RoutingContext :=
  buildContext inv.url inv.fromApp inv.fromAppBundleId inv.fromBrowser inv.fromProfile

/-- `run_open` from `load_store` on. -/
def openLocal (inv : Invocation Text) : Except String Unit × List Launch :=
  match loadStore inv.codec inv.file inv.env with
  | .error _ => (.error ("loading config from " ++ inv.host.configPath), [])
  | .ok store =>
    if inv.dryRun then (.ok (), [])
    else
      match evaluate inv.host.urlParse store.document inv.context with
      | .openWith target _ _ =>
        match inv.host.urlParse inv.url with
        | none => (.error ("parsing URL " ++ inv.url), [])
        | some _ =>
          match inv.host.launch target (inv.host.urlText inv.url) with
          | .error e =>
            (.error ("launcher: " ++ e), [⟨target, inv.host.urlText inv.url, false⟩])
          | .ok () => (.ok (), [⟨target, inv.host.urlText inv.url, true⟩])
      | .allow _ => (.ok (), [])
      | .ask _ _ => (.error "'ask' is not handled in headless CLI mode", [])
      | .block reason => (.error ("blocked: " ++ reason), [])

end Invocation

/-! ## The system -/

/-- Where the `lpt` process stands: before the attempt, in `UnixStream::connect`, in
`write_frame`, in `read_frame`, before `load_store`, returned. -/
inductive CliPc where
  | start
  | connecting
  | writing
  | waiting
  | fallback
  | done (result : Except String Unit)

/-- The errors that `send` can return at each point. -/
def CliPc.mayFail : CliPc → ClientError → Bool
  | connecting, .transport _ => false
  | connecting, _ => true
  | writing, .transport _ => true
  | writing, .timeout _ => true
  | waiting, .transport _ => true
  | waiting, .timeout _ => true
  | _, _ => false

/-- Where the daemon's task for this connection stands. -/
inductive DaemonPc where
  | listening
  | received
  | evaluated (explained : Explained)
  | answered (response : Response)
  | replied (response : Response)

/-- `written` says that the whole request frame is in the socket. -/
structure World (Text : Type) where
  cli : CliPc
  written : Bool
  daemon : DaemonPc
  runtime : DaemonRuntime Text
  cliLaunches : List Launch
  daemonLaunches : List Launch

inductive Action where
  | begin
  | connect
  | write
  | fail (e : ClientError)
  | readReply
  | openLocal
  | daemonRead
  | daemonEvaluate (now : Nat)
  | daemonLaunch
  | daemonReply

/-- What `run_open` makes of the result of `client::send`. -/
def afterSend (inv : Invocation Text) (sent : Except ClientError Response) : CliPc :=
  match tryDaemonRouteOpen inv.debug sent with
  | .ok _ => .done (.ok ())
  | .error .offline => .fallback
  | .error (.other message) => .done (.error ("daemon: " ++ message))

def step (inv : Invocation Text) (w : World Text) : Action → Option (World Text)
  | .begin =>
    match w.cli with
    | .start => some { w with cli := if inv.isLocal || inv.dryRun then .fallback else .connecting }
    | _ => none
  | .connect =>
    match w.cli with
    | .connecting => some { w with cli := .writing }
    | _ => none
  | .write =>
    match w.cli with
    | .writing => some { w with cli := .waiting, written := true }
    | _ => none
  | .fail e =>
    if w.cli.mayFail e then some { w with cli := afterSend inv (.error e) } else none
  | .readReply =>
    match w.cli, w.daemon with
    | .waiting, .replied response => some { w with cli := afterSend inv (.ok response) }
    | _, _ => none
  | .openLocal =>
    match w.cli with
    | .fallback =>
      some { w with
        cli := .done inv.openLocal.1
        cliLaunches := w.cliLaunches ++ inv.openLocal.2 }
    | _ => none
  | .daemonRead =>
    match w.daemon with
    | .listening => if w.written then some { w with daemon := .received } else none
    | _ => none
  | .daemonEvaluate now =>
    match w.daemon with
    | .received =>
      let (explained, runtime) := w.runtime.evaluateAndLog inv.daemonHost now inv.context
      some { w with daemon := .evaluated explained, runtime := runtime }
    | _ => none
  | .daemonLaunch =>
    match w.daemon with
    | .evaluated explained =>
      let (response, launches) :=
        openDecision inv.daemonHost inv.requestId inv.context.url explained.decision
      some { w with
        daemon := .answered response
        daemonLaunches := w.daemonLaunches ++ launches }
    | _ => none
  | .daemonReply =>
    match w.daemon with
    | .answered response => some { w with daemon := .replied response }
    | _ => none

/-- Nothing has happened yet. -/
structure Start (w : World Text) : Prop where
  cli : w.cli = .start
  written : w.written = false
  daemon : w.daemon = .listening
  cliLaunches : w.cliLaunches = []
  daemonLaunches : w.daemonLaunches = []

/-- The daemon's steps add up to `DaemonRuntime.handle`. -/
theorem daemon_steps (inv : Invocation Text) {w : World Text} (h : w.daemon = .received)
    (now : Nat) (token : Uuid) (fault : Option Fault) :
    let handled := w.runtime.handle inv.codec inv.daemonHost now token fault
      (.routeOpen inv.requestId inv.context)
    run (step inv) w [.daemonEvaluate now, .daemonLaunch, .daemonReply] =
      some { w with
        daemon := .replied handled.1
        runtime := handled.2.1
        daemonLaunches := w.daemonLaunches ++ handled.2.2 } := by
  simp only [run, step, h]
  rfl

/-! ### What a step does -/

section Steps

-- The equations of `step`, computed once for the lemmas of this section.
attribute [local simp] step

variable {inv : Invocation Text} {w w' : World Text}

theorem step_begin (h : step inv w .begin = some w') :
    w.cli = .start ∧
      w' = { w with cli := if inv.isLocal || inv.dryRun then .fallback else .connecting } := by
  simp only [step] at h
  split at h
  · rename_i hpc
    cases h
    exact ⟨hpc, rfl⟩
  · cases h

theorem step_connect (h : step inv w .connect = some w') :
    w.cli = .connecting ∧ w' = { w with cli := .writing } := by
  simp only [step] at h
  split at h
  · rename_i hpc
    cases h
    exact ⟨hpc, rfl⟩
  · cases h

theorem step_write (h : step inv w .write = some w') :
    w.cli = .writing ∧ w' = { w with cli := .waiting, written := true } := by
  simp only [step] at h
  split at h
  · rename_i hpc
    cases h
    exact ⟨hpc, rfl⟩
  · cases h

theorem step_fail {e : ClientError} (h : step inv w (.fail e) = some w') :
    w.cli.mayFail e = true ∧ w' = { w with cli := afterSend inv (.error e) } := by
  simp only [step] at h
  split at h
  · rename_i he
    cases h
    exact ⟨he, rfl⟩
  · cases h

theorem step_readReply (h : step inv w .readReply = some w') :
    w.cli = .waiting ∧ ∃ response, w' = { w with cli := afterSend inv (.ok response) } := by
  simp only [step] at h
  split at h
  · rename_i response hpc hdpc
    cases h
    exact ⟨hpc, response, rfl⟩
  · cases h

theorem step_openLocal (h : step inv w .openLocal = some w') :
    w.cli = .fallback ∧
      w' = { w with
        cli := .done inv.openLocal.1
        cliLaunches := w.cliLaunches ++ inv.openLocal.2 } := by
  simp only [step] at h
  split at h
  · rename_i hpc
    cases h
    exact ⟨hpc, rfl⟩
  · cases h

/-- What the daemon's steps leave alone. -/
structure Frame (w w' : World Text) : Prop where
  written : w'.written = w.written
  cli : w'.cli = w.cli
  cliLaunches : w'.cliLaunches = w.cliLaunches
  config : w'.runtime.config = w.runtime.config

theorem step_daemonRead (h : step inv w .daemonRead = some w') :
    w.daemon = .listening ∧ w.written = true ∧ w' = { w with daemon := .received } := by
  simp only [step] at h
  split at h
  · rename_i hpc
    split at h
    · rename_i hwritten
      cases h
      exact ⟨hpc, hwritten, rfl⟩
    · cases h
  · cases h

theorem step_daemonEvaluate {now : Nat} (h : step inv w (.daemonEvaluate now) = some w') :
    w.daemon = .received ∧ Frame w w' ∧ w'.daemonLaunches = w.daemonLaunches ∧
      ∃ explained, w'.daemon = .evaluated explained ∧ explained.decision =
        evaluate inv.daemonHost.urlParse w.runtime.config.document inv.context := by
  simp only [step] at h
  split at h
  · rename_i hpc
    cases h
    exact ⟨hpc, ⟨rfl, rfl, rfl, rfl⟩, rfl, _, rfl, rfl⟩
  · cases h

theorem step_daemonLaunch (h : step inv w .daemonLaunch = some w') :
    ∃ explained response, w.daemon = .evaluated explained ∧
      w' = { w with
        daemon := .answered response
        daemonLaunches := w.daemonLaunches ++
          (openDecision inv.daemonHost inv.requestId inv.context.url explained.decision).2 } := by
  simp only [step] at h
  split at h
  · rename_i explained hpc
    cases h
    exact ⟨explained, _, hpc, rfl⟩
  · cases h

theorem step_daemonReply (h : step inv w .daemonReply = some w') :
    ∃ response, w.daemon = .answered response ∧ w' = { w with daemon := .replied response } := by
  simp only [step] at h
  split at h
  · rename_i response hpc
    cases h
    exact ⟨response, hpc, rfl⟩
  · cases h

def Action.OfDaemon : Action → Prop
  | daemonRead => True
  | daemonEvaluate _ => True
  | daemonLaunch => True
  | daemonReply => True
  | _ => False

theorem frame_of_daemon {a : Action} (ha : a.OfDaemon) (h : step inv w a = some w') :
    Frame w w' := by
  cases a with
  | daemonRead =>
    obtain ⟨-, -, rfl⟩ := step_daemonRead h
    exact ⟨rfl, rfl, rfl, rfl⟩
  | daemonEvaluate now => exact (step_daemonEvaluate h).2.1
  | daemonLaunch =>
    obtain ⟨_, _, -, rfl⟩ := step_daemonLaunch h
    exact ⟨rfl, rfl, rfl, rfl⟩
  | daemonReply =>
    obtain ⟨_, -, rfl⟩ := step_daemonReply h
    exact ⟨rfl, rfl, rfl, rfl⟩
  | _ => exact ha.elim

end Steps

/-! ## Successful opens -/

def successes (launches : List Launch) : Nat := launches.countP Launch.ok

/-- The document opens the URL on this host. -/
def Opens (host : Host) (doc : ConfigDocument) (context : RoutingContext) : Prop :=
  ∃ target rule reason, evaluate host.urlParse doc context = .openWith target rule reason ∧
    (host.urlParse context.url).isSome ∧ host.launch target (host.urlText context.url) = .ok ()

/-- So does the daemon's. -/
def DaemonOpens (inv : Invocation Text) (w : World Text) : Prop :=
  Opens inv.daemonHost w.runtime.config.document inv.context

/-- So does the file, in the `lpt` process. -/
def LocalOpens (inv : Invocation Text) : Prop :=
  inv.dryRun = false ∧
    ∃ store, loadStore inv.codec inv.file inv.env = .ok store ∧
      Opens inv.host store.document inv.context

/-- One successful open if `P`, none otherwise. -/
def OnceIff (P : Prop) (launches : List Launch) : Prop :=
  (P ∧ successes launches = 1) ∨ (¬ P ∧ successes launches = 0)

theorem openDecision_once (host : Host) (requestId : String) (doc : ConfigDocument)
    (context : RoutingContext) :
    OnceIff (Opens host doc context)
      (openDecision host requestId context.url (evaluate host.urlParse doc context)).2 := by
  unfold OnceIff Opens openDecision
  cases evaluate host.urlParse doc context with
  | openWith target rule reason =>
    cases hparse : host.urlParse context.url with
    | none => simp [successes]
    | some parsed =>
      cases hlaunch : host.launch target (host.urlText context.url) with
      | error e => simp [successes, hlaunch]
      | ok u => simp [successes, hlaunch]
  | _ => simp [successes]

theorem openLocal_once (inv : Invocation Text) : OnceIff (LocalOpens inv) inv.openLocal.2 := by
  unfold OnceIff LocalOpens Opens Invocation.openLocal
  have hurl : inv.context.url = inv.url := rfl
  rw [hurl]
  cases loadStore inv.codec inv.file inv.env with
  | error e => simp [successes]
  | ok store =>
    cases inv.dryRun with
    | true => simp [successes]
    | false =>
      cases heval : evaluate inv.host.urlParse store.document inv.context with
      | openWith target rule reason =>
        cases hparse : inv.host.urlParse inv.url with
        | none => simp [successes, heval]
        | some parsed =>
          cases hlaunch : inv.host.launch target (inv.host.urlText inv.url) with
          | error e => simp [successes, heval, hlaunch]
          | ok u => simp [successes, heval, hlaunch]
      | _ => simp [successes, heval]

theorem OnceIff.le_one {P : Prop} {launches : List Launch} (h : OnceIff P launches) :
    successes launches ≤ 1 := by
  obtain ⟨-, h⟩ | ⟨-, h⟩ := h <;> omega

theorem OnceIff.eq_one {P : Prop} {launches : List Launch} (h : OnceIff P launches) (hP : P) :
    successes launches = 1 := by
  obtain ⟨-, h⟩ | ⟨hn, -⟩ := h
  · exact h
  · exact absurd hP hn

theorem OnceIff.of_pos {P : Prop} {launches : List Launch} (h : OnceIff P launches)
    (hpos : 0 < successes launches) : P := by
  obtain ⟨hP, -⟩ | ⟨-, h⟩ := h
  · exact hP
  · omega

/-! ## What each side has done -/

variable {inv : Invocation Text} {w w' : World Text} {a : Action}

/-- Launches of the daemon, by where it stands. -/
def DaemonInv (inv : Invocation Text) (w : World Text) : Prop :=
  match w.daemon with
  | .listening => w.daemonLaunches = []
  | .received => w.written = true ∧ w.daemonLaunches = []
  | .evaluated explained =>
    w.written = true ∧ w.daemonLaunches = [] ∧
      explained.decision =
        evaluate inv.daemonHost.urlParse w.runtime.config.document inv.context
  | .answered _ => w.written = true ∧ OnceIff (DaemonOpens inv w) w.daemonLaunches
  | .replied _ => w.written = true ∧ OnceIff (DaemonOpens inv w) w.daemonLaunches

/-- Launches of the `lpt` process, by where it stands. -/
def CliInv (inv : Invocation Text) (w : World Text) : Prop :=
  match w.cli with
  | .start => w.written = false ∧ w.cliLaunches = []
  | .connecting => w.written = false ∧ w.cliLaunches = []
  | .writing => w.written = false ∧ w.cliLaunches = []
  | .waiting => w.cliLaunches = []
  | .fallback => w.cliLaunches = []
  | .done _ => w.cliLaunches = [] ∨ OnceIff (LocalOpens inv) w.cliLaunches

structure Inv (inv : Invocation Text) (w : World Text) : Prop where
  daemon : DaemonInv inv w
  cli : CliInv inv w

theorem inv_start (h : Start w) : Inv inv w where
  daemon := by
    unfold DaemonInv
    rw [h.daemon]
    exact h.daemonLaunches
  cli := by
    unfold CliInv
    rw [h.cli]
    exact ⟨h.written, h.cliLaunches⟩

/-- The daemon does not care when the frame arrives. -/
theorem daemonInv_written (h : DaemonInv inv w) (pc : CliPc) :
    DaemonInv inv { w with cli := pc, written := true } := by
  unfold DaemonInv at h ⊢
  cases hd : w.daemon with
  | listening =>
    rw [hd] at h
    exact h
  | _ =>
    rw [hd] at h
    exact ⟨rfl, h.2⟩

theorem cliInv_afterSend (h : w.cliLaunches = []) (sent : Except ClientError Response) :
    CliInv inv { w with cli := afterSend inv sent } := by
  unfold CliInv afterSend
  cases tryDaemonRouteOpen inv.debug sent with
  | ok decision => exact .inl h
  | error e =>
    cases e with
    | offline => exact h
    | other message => exact .inl h

/-- While `send` can fail, nothing has been opened locally. -/
theorem cliLaunches_of_mayFail {e : ClientError} (h : CliInv inv w)
    (he : w.cli.mayFail e = true) : w.cliLaunches = [] := by
  unfold CliInv at h
  cases hc : w.cli with
  | start =>
    rw [hc] at he
    cases he
  | connecting =>
    rw [hc] at h
    exact h.2
  | writing =>
    rw [hc] at h
    exact h.2
  | waiting =>
    rw [hc] at h
    exact h
  | fallback =>
    rw [hc] at he
    cases he
  | done result =>
    rw [hc] at he
    cases he

theorem inv_step (h : Inv inv w) (hs : step inv w a = some w') : Inv inv w' := by
  have hd := h.daemon
  have hc := h.cli
  cases a with
  | begin =>
    obtain ⟨hpc, rfl⟩ := step_begin hs
    refine ⟨hd, ?_⟩
    unfold CliInv at hc ⊢
    rw [hpc] at hc
    cases inv.isLocal || inv.dryRun
    · exact hc
    · exact hc.2
  | connect =>
    obtain ⟨hpc, rfl⟩ := step_connect hs
    refine ⟨hd, ?_⟩
    unfold CliInv at hc ⊢
    rw [hpc] at hc
    exact hc
  | write =>
    obtain ⟨hpc, rfl⟩ := step_write hs
    refine ⟨daemonInv_written hd .waiting, ?_⟩
    unfold CliInv at hc ⊢
    rw [hpc] at hc
    exact hc.2
  | fail e =>
    obtain ⟨he, rfl⟩ := step_fail hs
    exact ⟨hd, cliInv_afterSend (cliLaunches_of_mayFail hc he) _⟩
  | readReply =>
    obtain ⟨hpc, response, rfl⟩ := step_readReply hs
    unfold CliInv at hc
    rw [hpc] at hc
    exact ⟨hd, cliInv_afterSend hc _⟩
  | openLocal =>
    obtain ⟨hpc, rfl⟩ := step_openLocal hs
    refine ⟨hd, .inr ?_⟩
    unfold CliInv at hc
    rw [hpc] at hc
    have hnil : w.cliLaunches = [] := hc
    rw [hnil]
    exact openLocal_once inv
  | daemonRead =>
    obtain ⟨hpc, hwritten, rfl⟩ := step_daemonRead hs
    refine ⟨⟨hwritten, ?_⟩, hc⟩
    unfold DaemonInv at hd
    rw [hpc] at hd
    exact hd
  | daemonEvaluate now =>
    obtain ⟨hpc, hframe, hlaunches, explained, hpc', hdecision⟩ := step_daemonEvaluate hs
    unfold DaemonInv at hd
    rw [hpc] at hd
    constructor
    · unfold DaemonInv
      rw [hpc', hframe.written, hframe.config, hlaunches]
      exact ⟨hd.1, hd.2, hdecision⟩
    · unfold CliInv at hc ⊢
      rw [hframe.cli, hframe.written, hframe.cliLaunches]
      exact hc
  | daemonLaunch =>
    obtain ⟨explained, response, hpc, rfl⟩ := step_daemonLaunch hs
    unfold DaemonInv at hd
    rw [hpc] at hd
    obtain ⟨hwritten, hnil, hdecision⟩ := hd
    refine ⟨⟨hwritten, ?_⟩, hc⟩
    rw [hnil, hdecision]
    exact openDecision_once _ _ _ _
  | daemonReply =>
    obtain ⟨response, hpc, rfl⟩ := step_daemonReply hs
    unfold DaemonInv at hd
    rw [hpc] at hd
    exact ⟨hd, hc⟩

/-- The daemon opens the URL once at most, and only if its document does. -/
theorem Inv.daemon_once (h : Inv inv w) :
    successes w.daemonLaunches = 0 ∨
      (w.written = true ∧ OnceIff (DaemonOpens inv w) w.daemonLaunches) := by
  have hd := h.daemon
  unfold DaemonInv at hd
  cases hpc : w.daemon with
  | listening =>
    rw [hpc] at hd
    exact .inl (by rw [hd]; rfl)
  | received =>
    rw [hpc] at hd
    exact .inl (by rw [hd.2]; rfl)
  | evaluated explained =>
    rw [hpc] at hd
    exact .inl (by rw [hd.2.1]; rfl)
  | answered response =>
    rw [hpc] at hd
    exact .inr hd
  | replied response =>
    rw [hpc] at hd
    exact .inr hd

theorem Inv.cli_once (h : Inv inv w) :
    w.cliLaunches = [] ∨ OnceIff (LocalOpens inv) w.cliLaunches := by
  have hc := h.cli
  unfold CliInv at hc
  cases hpc : w.cli with
  | done result =>
    rw [hpc] at hc
    exact hc
  | waiting =>
    rw [hpc] at hc
    exact .inl hc
  | fallback =>
    rw [hpc] at hc
    exact .inl hc
  | _ =>
    rw [hpc] at hc
    exact .inl hc.2

/-! ## Timeouts -/

/-- The timeout does not fire once the request is written, or the route does not open on both
sides. -/
def InTime (inv : Invocation Text) (w : World Text) : Action → Prop
  | .fail (.timeout _) => w.written = true → ¬ (DaemonOpens inv w ∧ LocalOpens inv)
  | _ => True

/-- Of a written request, only one side that opens is left when the fallback is reached. -/
def Safe (inv : Invocation Text) (w : World Text) : Prop :=
  w.written = true → w.cli = .fallback ∨ w.cliLaunches ≠ [] →
    ¬ (DaemonOpens inv w ∧ LocalOpens inv)

/-- A timeout fired on a written request whose route opens on both sides. -/
structure Late (inv : Invocation Text) (w : World Text) : Prop where
  written : w.written = true
  daemonOpens : DaemonOpens inv w
  localOpens : LocalOpens inv
  cli : w.cli = .fallback ∨ ((∃ result, w.cli = .done result) ∧ successes w.cliLaunches = 1)

theorem afterSend_ok (inv : Invocation Text) (response : Response) :
    afterSend inv (.ok response) ≠ .fallback := by
  unfold afterSend tryDaemonRouteOpen tryDaemon
  cases response <;> simp

theorem safe_start (h : Start w) : Safe inv w := by
  intro hw
  rw [h.written] at hw
  cases hw

theorem Safe.frame (h : Safe inv w) (hf : Frame w w') : Safe inv w' := by
  unfold Safe DaemonOpens at h ⊢
  rw [hf.written, hf.cli, hf.cliLaunches, hf.config]
  exact h

theorem safe_fail {e : ClientError} (hinv : Inv inv w) (he : w.cli.mayFail e = true)
    (hG : InTime inv w (.fail e)) : Safe inv { w with cli := afterSend inv (.error e) } := by
  intro hw hlocal
  have hnil : w.cliLaunches = [] := cliLaunches_of_mayFail hinv.cli he
  obtain hfallback | hne := hlocal
  · have hc := hinv.cli
    unfold CliInv at hc
    have hwritten : w.written = true := hw
    cases hpc : w.cli with
    | waiting =>
      rw [hpc] at he
      cases e with
      | timeout seconds => exact hG hwritten
      | transport e => cases hfallback
      | _ => cases he
    | connecting =>
      rw [hpc, hwritten] at hc
      cases hc.1
    | writing =>
      rw [hpc, hwritten] at hc
      cases hc.1
    | _ =>
      rw [hpc] at he
      cases he
  · exact absurd hnil hne

theorem safe_step (hinv : Inv inv w) (h : Safe inv w) (hG : InTime inv w a)
    (hs : step inv w a = some w') : Safe inv w' := by
  have hc := hinv.cli
  unfold CliInv at hc
  cases a with
  | begin =>
    obtain ⟨hpc, rfl⟩ := step_begin hs
    rw [hpc] at hc
    intro hw
    rw [hc.1] at hw
    cases hw
  | connect =>
    obtain ⟨hpc, rfl⟩ := step_connect hs
    rw [hpc] at hc
    intro hw
    rw [hc.1] at hw
    cases hw
  | write =>
    obtain ⟨hpc, rfl⟩ := step_write hs
    rw [hpc] at hc
    rintro - (hfallback | hne)
    · cases hfallback
    · exact absurd hc.2 hne
  | fail e =>
    obtain ⟨he, rfl⟩ := step_fail hs
    exact safe_fail hinv he hG
  | readReply =>
    obtain ⟨hpc, response, rfl⟩ := step_readReply hs
    rw [hpc] at hc
    rintro - (hfallback | hne)
    · exact absurd hfallback (afterSend_ok inv response)
    · exact absurd hc hne
  | openLocal =>
    obtain ⟨hpc, rfl⟩ := step_openLocal hs
    intro hw _
    exact h hw (.inl hpc)
  | daemonRead | daemonEvaluate now | daemonLaunch | daemonReply =>
    exact h.frame (frame_of_daemon (by trivial) hs)

theorem Late.frame (h : Late inv w) (hf : Frame w w') : Late inv w' where
  written := hf.written.trans h.written
  daemonOpens := by
    unfold DaemonOpens
    rw [hf.config]
    exact h.daemonOpens
  localOpens := h.localOpens
  cli := by
    rw [hf.cli, hf.cliLaunches]
    exact h.cli

/-- A step that is not in time is a timeout on a written request. -/
theorem late_of_not_inTime (hG : ¬ InTime inv w a)
    (hs : step inv w a = some w') : Late inv w' := by
  cases a with
  | fail e =>
    cases e with
    | timeout seconds =>
      obtain ⟨he, rfl⟩ := step_fail hs
      simp only [InTime, Classical.not_imp, Classical.not_not] at hG
      exact ⟨hG.1, hG.2.1, hG.2.2, .inl rfl⟩
    | _ => exact absurd trivial hG
  | _ => exact absurd trivial hG

theorem late_step (hinv : Inv inv w) (h : Late inv w) (hs : step inv w a = some w') :
    Late inv w' := by
  -- the local side is in the fallback or has returned from it, so few of its steps are enabled
  have hpc : ∀ pc, w.cli = pc → pc = .fallback ∨ ∃ result, pc = .done result := by
    rintro pc rfl
    exact h.cli.imp id And.left
  cases a with
  | begin =>
    obtain hc | ⟨_, hc⟩ := hpc _ (step_begin hs).1 <;> cases hc
  | connect =>
    obtain hc | ⟨_, hc⟩ := hpc _ (step_connect hs).1 <;> cases hc
  | write =>
    obtain hc | ⟨_, hc⟩ := hpc _ (step_write hs).1 <;> cases hc
  | readReply =>
    obtain hc | ⟨_, hc⟩ := hpc _ (step_readReply hs).1 <;> cases hc
  | fail e =>
    have he := (step_fail hs).1
    obtain hc | ⟨_, hc⟩ := hpc _ rfl
    · rw [hc] at he
      cases he
    · rw [hc] at he
      cases he
  | openLocal =>
    obtain ⟨hfallback, rfl⟩ := step_openLocal hs
    have hnil : w.cliLaunches = [] := by
      have hc := hinv.cli
      unfold CliInv at hc
      rw [hfallback] at hc
      exact hc
    refine ⟨h.written, h.daemonOpens, h.localOpens, .inr ⟨⟨_, rfl⟩, ?_⟩⟩
    rw [hnil]
    exact (openLocal_once inv).eq_one h.localOpens
  | daemonRead | daemonEvaluate now | daemonLaunch | daemonReply =>
    exact h.frame (frame_of_daemon (by trivial) hs)

/-! ## Runs -/

/-- Successful opens, of both processes together. -/
def opens (w : World Text) : Nat := successes w.daemonLaunches + successes w.cliLaunches

/-- `lpt` has returned, and a request that was written has been served. -/
structure Finished (w : World Text) : Prop where
  cli : ∃ result, w.cli = .done result
  daemon : w.written = true → ∃ response, w.daemon = .replied response

theorem opens_le_one (hinv : Inv inv w) (h : Safe inv w) : opens w ≤ 1 := by
  unfold opens
  obtain hcli | hcli := hinv.cli_once
  · have hdaemon : successes w.daemonLaunches ≤ 1 := by
      obtain hzero | ⟨-, honce⟩ := hinv.daemon_once
      · omega
      · exact honce.le_one
    have hnone : successes w.cliLaunches = 0 := by
      rw [hcli]
      rfl
    omega
  · have hone := hcli.le_one
    obtain hzero | ⟨hwritten, honce⟩ := hinv.daemon_once
    · omega
    · by_contra hgt
      have hd := honce.le_one
      have hlocal : LocalOpens inv := hcli.of_pos (by omega)
      have hdaemon : DaemonOpens inv w := honce.of_pos (by omega)
      have hne : w.cliLaunches ≠ [] := by
        intro hnil
        have := hcli.eq_one hlocal
        rw [hnil] at this
        cases this
      exact h hwritten (.inr hne) ⟨hdaemon, hlocal⟩

theorem opens_of_late (hinv : Inv inv w) (h : Late inv w) (hf : Finished w) : opens w = 2 := by
  obtain ⟨response, hpc⟩ := hf.daemon h.written
  have hdaemon : OnceIff (DaemonOpens inv w) w.daemonLaunches := by
    have hd := hinv.daemon
    unfold DaemonInv at hd
    rw [hpc] at hd
    exact hd.2
  have hcli : successes w.cliLaunches = 1 := by
    obtain hfallback | ⟨-, hone⟩ := h.cli
    · obtain ⟨result, hdone⟩ := hf.cli
      rw [hfallback] at hdone
      cases hdone
    · exact hone
  unfold opens
  have := hdaemon.eq_one h.daemonOpens
  omega

/-- **At most one open.** A run in which no timeout fires on a written request whose route opens
on both sides has at most one successful open; a finished run with at most one is such a run. -/
theorem opens_at_most_once (inv : Invocation Text) {w w' : World Text} (h0 : Start w)
    {as : List Action} (h : run (step inv) w as = some w') :
    (Exec (step inv) (InTime inv) w as w' → opens w' ≤ 1) ∧
      (Finished w' → opens w' ≤ 1 → Exec (step inv) (InTime inv) w as w') := by
  have hexec := exec_iff_run.mpr h
  have hinv : Inv inv w' :=
    hexec.invariant (I := Inv inv) (fun _ _ _ hi _ hs => inv_step hi hs) (inv_start h0)
  constructor
  · intro hin
    have hsafe : Inv inv w' ∧ Safe inv w' :=
      hin.invariant (I := fun w => Inv inv w ∧ Safe inv w)
        (fun _ _ _ hi hG hs => ⟨inv_step hi.1 hs, safe_step hi.1 hi.2 hG hs⟩)
        ⟨inv_start h0, safe_start h0⟩
    exact opens_le_one hinv hsafe.2
  · intro hf hle
    obtain hin | hlate := hexec.or_of_break (I := Inv inv) (J := Late inv) (G := InTime inv)
      (fun _ _ _ hi _ hs => inv_step hi hs) (fun _ _ _ _ hG hs => late_of_not_inTime hG hs)
      (fun _ _ _ hi hJ hs => late_step hi hJ hs) (inv_start h0)
    · exact hin
    · have htwo := opens_of_late hinv hlate hf
      omega

/-! ### A prompt daemon and a slow one -/

def chromeDocument : ConfigDocument := .withDefault (.new "chrome")

/-- A host on which every text is a URL and every launch succeeds. -/
def openHost : Host :=
  { Headless.bareHost with urlParse := fun _ => some ⟨some "example.com", "/"⟩ }

def openExample : Invocation FileText where
  url := "https://example.com"
  fromApp := none
  fromAppBundleId := none
  fromBrowser := none
  fromProfile := none
  isLocal := false
  dryRun := false
  requestId := "1"
  debug _ := "Response"
  codec := fileCodec
  file := some (.saved chromeDocument)
  env := Headless.lptEnv
  host := openHost
  daemonHost := openHost

def served : World FileText where
  cli := .start
  written := false
  daemon := .listening
  runtime := ⟨⟨⟨chromeDocument, none⟩, some (.saved chromeDocument)⟩, RouteHistory.new, "0.1.0"⟩
  cliLaunches := []
  daemonLaunches := []

theorem served_start : Start served := ⟨rfl, rfl, rfl, rfl, rfl⟩

def daemonServes : List Action := [.daemonRead, .daemonEvaluate 0, .daemonLaunch, .daemonReply]

def prompt : List Action := [.begin, .connect, .write] ++ daemonServes ++ [.readReply]

theorem opens_at_most_once_prompt :
    ∃ w', run (step openExample) served prompt = some w' ∧ Finished w' ∧ opens w' = 1 ∧
      ((Exec (step openExample) (InTime openExample) served prompt w' → opens w' ≤ 1) ∧
        (Finished w' → opens w' ≤ 1 →
          Exec (step openExample) (InTime openExample) served prompt w')) :=
  ⟨_, rfl, ⟨⟨_, rfl⟩, fun _ => ⟨_, rfl⟩⟩, rfl, opens_at_most_once openExample served_start rfl⟩

/-- The daemon reads the request after the client has given up on it: both processes open the
URL, and `lpt` returns Ok. -/
theorem slow_daemon_opens_twice :
    ∃ w', run (step openExample) served
        ([.begin, .connect, .write, .fail (.timeout DEFAULT_TIMEOUT), .openLocal] ++
          daemonServes) = some w' ∧
      w'.cli = .done (.ok ()) ∧
      w'.cliLaunches = [⟨.new "chrome", "https://example.com", true⟩] ∧
      w'.daemonLaunches = [⟨.new "chrome", "https://example.com", true⟩] ∧ opens w' = 2 :=
  ⟨_, rfl, rfl, rfl, rfl, rfl⟩

end LinkPilot.RouteOpen
