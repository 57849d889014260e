import LinkPilot.Edits
import LinkPilot.Routing
import LinkPilot.Store
import LinkPilot.Lib.Interleaving

/-!
# The headless daemon and the file it was started from

Model of `crates/core/src/daemon.rs` (`DaemonRuntime`), of the route history it logs to, and of
the `lpt` commands that write the config file from a process of their own (`mutate_local`,
`config import`, `config compile` of `crates/cli/src/main.rs`).

The headless daemon (`crates/headless-daemon/src/main.rs`) bootstraps a runtime and serves it; it
installs no file watcher, so a file-change notification does nothing in its process.

Principal results:

* `handle_config` — only `ConfigReplace` touches the store.
* `follows_throughout_iff` — the daemon answers from the file throughout a run exactly when no
  `lpt` command changes the document and no `ConfigReplace` fails with another document.
* `daemon_serves_old_document` — after an acknowledged `lpt rules add` and every notification the
  daemon still answers without the rule, and a `ConfigReplace` of what it answered removes it.
-/

set_option autoImplicit false

namespace LinkPilot

open Interleaving

/-! ## Route history -/

structure RouteRecord where
  timestampMs : Nat
  context : RoutingContext
  decision : RoutingDecision
  matchedRule : Option RuleId
  explanation : Option MatcherEval

/-- `RouteRecord::with_explanation`. -/
def RouteRecord.withExplanation (now : Nat) (context : RoutingContext) (decision : RoutingDecision)
    (explanation : Option MatcherEval) : RouteRecord where
  timestampMs := now
  context := context
  decision := decision
  matchedRule :=
    match decision with
    | .openWith _ matchedRule _ => matchedRule
    | _ => none
  explanation := explanation

def DEFAULT_CAPACITY : Nat := 1000

/-- `RouteHistory`, oldest record first. -/
structure RouteHistory where
  capacity : Nat
  inner : List RouteRecord

namespace RouteHistory

def withCapacity (capacity : Nat) : RouteHistory := ⟨capacity, []⟩

def new : RouteHistory := withCapacity DEFAULT_CAPACITY

/-- `RouteHistory::log`. -/
def log (h : RouteHistory) (record : RouteRecord) : RouteHistory :=
  { h with
    inner := (if h.inner.length = h.capacity then h.inner.drop 1 else h.inner) ++ [record] }

/-- `RouteHistory::recent`. -/
def recent (h : RouteHistory) (limit : Nat) : List RouteRecord := h.inner.reverse.take limit

end RouteHistory

/-! ## Protocol -/

structure DoctorReport where
  daemonVersion : String
  isDefaultBrowser : Bool
  configPath : Option String
  installedBrowserCount : Nat
  ipcSocketPath : Option String
  deriving DecidableEq, Repr

inductive Request where
  | routeEvaluate (requestId : String) (context : RoutingContext)
  | routeOpen (requestId : String) (context : RoutingContext)
  | configGet (requestId : String)
  | configReplace (requestId : String) (doc : ConfigDocument) (writer : WriterId)
  | doctor (requestId : String)
  | statePing (requestId : String)
  | routeHistory (requestId : String) (limit : Option Nat)

inductive Response where
  | routeDecision (requestId : String) (decision : RoutingDecision)
  | configSnapshot (requestId : String) (doc : ConfigDocument)
  | doctorReport (requestId : String) (report : DoctorReport)
  | ack (requestId : String)
  | pong (requestId : String) (daemonVersion : String)
  | error (requestId : String) (code : String) (message : String)
  | routeHistorySnapshot (requestId : String) (records : List RouteRecord)

/-! ## The runtime -/

/-- A call of the URL launcher, and whether it succeeded. -/
structure Launch where
  target : BrowserTarget
  url : String
  ok : Bool
  deriving DecidableEq, Repr

/-- What a process finds around it: the `url` crate, which has a text of its own for what it has
parsed, the launcher and the rest of the platform provider, and the paths that `doctor` reports. -/
structure Host where
  urlParse : String → Option Url
  urlText : String → String
  urlError : String → String
  launch : BrowserTarget → String → Except String Unit
  isDefaultBrowser : Bool
  installedBrowsers : Nat
  configPath : String
  socketPath : String
  configErrorText : ConfigError → String

/-- `DaemonRuntime`. -/
structure DaemonRuntime (Text : Type) where
  config : ConfigStore Text
  history : RouteHistory
  version : String

/-- What a `RouteOpen` does with the decision: the response and the launcher calls. -/
def openDecision (host : Host) (requestId : String) (rawUrl : String) (decision : RoutingDecision) :
    Response × List Launch :=
  match decision with
  | .openWith target _ _ =>
    match host.urlParse rawUrl with
    | none =>
      (.error requestId "bad-url" ("parsing " ++ rawUrl ++ ": " ++ host.urlError rawUrl), [])
    | some _ =>
      match host.launch target (host.urlText rawUrl) with
      | .error e => (.error requestId "launch-failed" e, [⟨target, host.urlText rawUrl, false⟩])
      | .ok () => (.routeDecision requestId decision, [⟨target, host.urlText rawUrl, true⟩])
  | .ask _ _ =>
    (.error requestId "ask-unsupported-headless"
      "Ask requires a GUI picker; not supported in headless daemon", [])
  | .allow _ => (.routeDecision requestId decision, [])
  | .block _ => (.routeDecision requestId decision, [])

namespace DaemonRuntime

variable {Text : Type} (codec : Codec Text) (host : Host)

/-- `DaemonRuntime::bootstrap`. -/
def bootstrap (file : Option Text) (version : String) (ids : Fin 4 → RuleId) (token : Uuid)
    (fault : Option Fault) : Except ConfigError (DaemonRuntime Text × Bool) :=
  match ConfigStore.loadOrInit codec file ids token fault with
  | .error e => .error e
  | .ok (config, created) => .ok (⟨config, RouteHistory.new, version⟩, created)

/-- `evaluate_and_log`, at time `now`. -/
def evaluateAndLog (rt : DaemonRuntime Text) (now : Nat) (context : RoutingContext) :
    Explained × DaemonRuntime Text :=
  let explained := evaluateExplained host.urlParse rt.config.document context
  let record := RouteRecord.withExplanation now context explained.decision explained.explanation
  (explained, { rt with history := rt.history.log record })

/-- `doctor_report`. -/
def doctorReport (rt : DaemonRuntime Text) : DoctorReport where
  daemonVersion := rt.version
  isDefaultBrowser := host.isDefaultBrowser
  configPath := some host.configPath
  installedBrowserCount := host.installedBrowsers
  ipcSocketPath := some host.socketPath

/-- `DaemonRuntime::handle`; `token` and `fault` are for the write of a `ConfigReplace`. -/
def handle (rt : DaemonRuntime Text) (now : Nat) (token : Uuid) (fault : Option Fault) :
    Request → Response × DaemonRuntime Text × List Launch
  | .routeEvaluate requestId context =>
    (.routeDecision requestId (evaluate host.urlParse rt.config.document context), rt, [])
  | .routeOpen requestId context =>
    let (explained, rt) := rt.evaluateAndLog host now context
    let (response, launches) := openDecision host requestId context.url explained.decision
    (response, rt, launches)
  | .configGet requestId => (.configSnapshot requestId rt.config.document, rt, [])
  | .configReplace requestId doc writer =>
    match ConfigStore.replace codec rt.config doc writer token fault with
    | (.ok (), config) => (.ack requestId, { rt with config := config }, [])
    | (.error e, config) =>
      (.error requestId "config-replace" (host.configErrorText e), { rt with config := config }, [])
  | .doctor requestId => (.doctorReport requestId (rt.doctorReport host), rt, [])
  | .statePing requestId => (.pong requestId rt.version, rt, [])
  | .routeHistory requestId limit =>
    (.routeHistorySnapshot requestId (rt.history.recent (limit.getD 100)), rt, [])

variable {codec} {host}

/-- Only `ConfigReplace` touches the store. -/
theorem handle_config {rt : DaemonRuntime Text} {now : Nat} {token : Uuid} {fault : Option Fault}
    {r : Request} :
    (handle codec host rt now token fault r).2.1.config =
      match r with
      | .configReplace _ doc writer =>
        (ConfigStore.replace codec rt.config doc writer token fault).2
      | _ => rt.config := by
  cases r with
  | configReplace requestId doc writer =>
    simp only [handle]
    split
    · rename_i h
      rw [h]
    · rename_i h
      rw [h]
  | _ => rfl

end DaemonRuntime

/-! ## The client -/

inductive TransportError where
  | io (text : String)
  | serde (text : String)
  | frameTooLarge (bytes : Nat)
  | closed
  deriving DecidableEq, Repr

def TransportError.toString : TransportError → String
  | .io text => "io: " ++ text
  | .serde text => "serde: " ++ text
  | .frameTooLarge bytes => "frame too large: " ++ Nat.repr bytes ++ " bytes"
  | .closed => "connection closed"

/-- `ClientError`; a timeout is given in whole seconds. -/
inductive ClientError where
  | io (text : String)
  | transport (e : TransportError)
  | unsupportedEndpoint
  | offline (reason : String)
  | timeout (seconds : Nat)
  deriving DecidableEq, Repr

def ClientError.toString : ClientError → String
  | .io text => "io: " ++ text
  | .transport e => "transport: " ++ e.toString
  | .unsupportedEndpoint => "endpoint not supported on this platform"
  | .offline reason => "daemon offline (" ++ reason ++ ")"
  | .timeout seconds => "timed out after " ++ Nat.repr seconds ++ "s"

def DEFAULT_TIMEOUT : Nat := 5

inductive IpcError where
  | offline
  | other (message : String)
  deriving DecidableEq, Repr

/-- `classify_ipc_error`: a timeout counts as offline. -/
def classifyIpcError : ClientError → IpcError
  | .offline _ => .offline
  | .timeout _ => .offline
  | e => .other e.toString

section TryDaemon

variable (debug : Response → String)

/-- The `try_daemon_*` functions: `expected` reads the response that the request asks for, and
`debug` prints any other. -/
def tryDaemon {α : Type} (expected : Response → Option α) (sent : Except ClientError Response) :
    Except IpcError α :=
  match sent with
  | .error e => .error (classifyIpcError e)
  | .ok response =>
    match expected response with
    | some a => .ok a
    | none =>
      match response with
      | .error _ code message => .error (.other (code ++ ": " ++ message))
      | other => .error (.other ("unexpected response: " ++ debug other))

/-- `try_daemon_route_open`. -/
def tryDaemonRouteOpen : Except ClientError Response → Except IpcError RoutingDecision :=
  tryDaemon debug fun
    | .routeDecision _ decision => some decision
    | _ => none

/-- `try_daemon_config_get`. -/
def tryDaemonConfigGet : Except ClientError Response → Except IpcError ConfigDocument :=
  tryDaemon debug fun
    | .configSnapshot _ doc => some doc
    | _ => none

end TryDaemon

/-! ## `lpt` and the file -/

/-- The fresh ids, tokens and failures of an `lpt` process that loads the store and perhaps
replaces the document. -/
structure LptEnv where
  ids : Fin 4 → RuleId
  loadToken : Uuid
  loadFault : Option Fault
  token : Uuid
  fault : Option Fault

inductive LptError where
  | daemon (message : String)
  | loading (e : ConfigError)
  | mutator (message : String)
  | writing (e : ConfigError)
  deriving DecidableEq, Repr

section Lpt

variable {Text : Type} (codec : Codec Text) (debug : Response → String)

/-- `load_store`. -/
def loadStore (file : Option Text) (env : LptEnv) : Except LptError (ConfigStore Text) :=
  match ConfigStore.loadOrInit codec file env.ids env.loadToken env.loadFault with
  | .error e => .error (.loading e)
  | .ok (store, _) => .ok store

/-- `read_doc`; `sent` is what `client::send` returns for the `ConfigGet`. -/
def readDoc (isLocal : Bool) (sent : Except ClientError Response) (file : Option Text)
    (env : LptEnv) : Except LptError ConfigDocument :=
  let fromFile := (loadStore codec file env).map ConfigStore.document
  if isLocal then fromFile
  else
    match tryDaemonConfigGet debug sent with
    | .ok doc => .ok doc
    | .error .offline => fromFile
    | .error (.other message) => .error (.daemon message)

/-- `load_store`, then `mutator`, then `replace`: the result, and the file it leaves. -/
def rewriteFile (file : Option Text) (env : LptEnv) (writer : WriterId)
    (mutator : ConfigDocument → Except String ConfigDocument) :
    Except LptError Unit × Option Text :=
  match loadStore codec file env with
  | .error e => (.error e, file)
  | .ok store =>
    match mutator store.document with
    | .error message => (.error (.mutator message), store.file)
    | .ok doc =>
      match ConfigStore.replace codec store doc writer env.token env.fault with
      | (.error e, store) => (.error (.writing e), store.file)
      | (.ok (), store) => (.ok (), store.file)

/-- `mutate_local`. -/
def mutateLocal (file : Option Text) (env : LptEnv) (command : LptCommand) :
    Except LptError Unit × Option Text :=
  rewriteFile codec file env .cli fun doc => command.apply doc

/-- `run_config_import`, for the document it has parsed. -/
def configImport (file : Option Text) (env : LptEnv) (doc : ConfigDocument) :
    Except LptError Unit × Option Text :=
  rewriteFile codec file env .cli fun _ => .ok doc

/-- `run_config_compile` without `--to`, for the document that `bun` printed. -/
def configCompile (file : Option Text) (env : LptEnv) (doc : ConfigDocument) :
    Except LptError Unit × Option Text :=
  rewriteFile codec file env .tsCompiled fun _ => .ok doc

variable {codec}

/-- On a file that needs no migration the commands write at most once. -/
theorem rewriteFile_spec {raw : Text} {d : ConfigDocument} {env : LptEnv} {writer : WriterId}
    {mutator : ConfigDocument → Except String ConfigDocument}
    (hp : codec.parse raw = some (d, false)) :
    (rewriteFile codec (some raw) env writer mutator).2 =
      match mutator d, env.fault with
      | .ok doc, none => some (codec.toStringPretty (doc.withMeta ⟨some env.token, some writer⟩))
      | _, _ => some raw := by
  have hload : loadStore codec (some raw) env =
      .ok ⟨⟨d, d.metaBlock.lastWriterToken⟩, some raw⟩ := by
    simp only [loadStore, ConfigStore.loadOrInit, hp]
    rfl
  unfold rewriteFile
  rw [hload]
  simp only [ConfigStore.document]
  cases mutator d with
  | error message => rfl
  | ok doc =>
    simp only [ConfigStore.replace]
    cases env.fault with
    | none => rfl
    | some f =>
      simp only [ConfigStore.persist_fault]
      split <;> rfl

end Lpt

/-! ## The daemon and the commands, over a run -/

namespace Headless

variable {Text : Type} (codec : Codec Text) (host : Host)

/-- One step of the daemon with the `lpt` processes around it; the store's `file` is the one they
share. -/
inductive Action where
  | request (r : Request) (now : Nat) (token : Uuid) (fault : Option Fault)
  | mutate (command : LptCommand) (env : LptEnv)
  | configImport (doc : ConfigDocument) (env : LptEnv)
  | configCompile (doc : ConfigDocument) (env : LptEnv)
  | notify

/-- The daemon after an `lpt` process has left the given file. -/
def setFile (rt : DaemonRuntime Text) (file : Option Text) : DaemonRuntime Text :=
  { rt with config := { rt.config with file := file } }

def step (rt : DaemonRuntime Text) : Action → Option (DaemonRuntime Text)
  | .request r now token fault => some (rt.handle codec host now token fault r).2.1
  | .mutate command env => some (setFile rt (mutateLocal codec rt.config.file env command).2)
  | .configImport doc env =>
    some (setFile rt (LinkPilot.configImport codec rt.config.file env doc).2)
  | .configCompile doc env =>
    some (setFile rt (LinkPilot.configCompile codec rt.config.file env doc).2)
  -- `main` attaches no watcher to the store
  | .notify => some rt

/-- The answers of the daemon are those of the document `d`, up to `meta`. -/
structure AnswersFrom (rt : DaemonRuntime Text) (d : ConfigDocument) : Prop where
  configGet : ∀ requestId now token fault,
    ∃ doc, (rt.handle codec host now token fault (.configGet requestId)).1 =
      .configSnapshot requestId doc ∧ doc.body = d.body
  routeEvaluate : ∀ requestId context now token fault,
    (rt.handle codec host now token fault (.routeEvaluate requestId context)).1 =
      .routeDecision requestId (evaluate host.urlParse d context)
  routeOpen : ∀ requestId context now token fault,
    ((rt.handle codec host now token fault (.routeOpen requestId context)).1,
        (rt.handle codec host now token fault (.routeOpen requestId context)).2.2) =
      openDecision host requestId context.url (evaluate host.urlParse d context)
  readDoc : ∀ debug requestId now token fault env,
    ∃ doc, LinkPilot.readDoc codec debug false
        (.ok (rt.handle codec host now token fault (.configGet requestId)).1)
        rt.config.file env = .ok doc ∧ doc.body = d.body
  editBased : ∀ (edit : Edit) requestId snapshot doc writer now token,
    (rt.handle codec host now token none (.configGet requestId)).1 =
      .configSnapshot requestId snapshot → edit.apply snapshot = .ok doc →
    ∃ e saved, edit.apply d = .ok e ∧ saved.body = e.body ∧
      (rt.handle codec host now token none (.configReplace requestId doc writer)).2.1.config.file =
        some (codec.toStringPretty saved)

/-- The daemon answers from the document that the file holds, and an edit based on its snapshot
is an edit of that document. -/
def Follows (rt : DaemonRuntime Text) : Prop :=
  ∃ d, rt.config.file.bind codec.docOf = some d ∧ AnswersFrom codec host rt d

/-- A `ConfigReplace` carries a document whose text parses back. -/
def Action.Readable : Action → Prop
  | .request (.configReplace _ doc _) _ _ _ => codec.ReadsBack doc
  | _ => True

/-- A command's mutator keeps the document of the file, up to `meta`, unless the write fails. -/
def KeepsDocument (store : ConfigStore Text) (env : LptEnv)
    (mutator : ConfigDocument → Except String ConfigDocument) : Prop :=
  ∀ d e, store.file.bind codec.docOf = some d → mutator d = .ok e → env.fault = none →
    e.body = d.body

/-- No `lpt` command changes the document, and no `ConfigReplace` fails with another document. -/
def Quiet (rt : DaemonRuntime Text) : Action → Prop
  | .request (.configReplace _ doc _) _ _ fault =>
    fault = none ∨ doc.body = rt.config.document.body
  | .mutate command env => KeepsDocument codec rt.config env fun doc => command.apply doc
  | .configImport doc env => KeepsDocument codec rt.config env fun _ => .ok doc
  | .configCompile doc env => KeepsDocument codec rt.config env fun _ => .ok doc
  | _ => True

/-- Memory and file hold one document, up to `meta`. -/
def Agrees (store : ConfigStore Text) : Prop :=
  ∃ d, store.file.bind codec.docOf = some d ∧ d.body = store.document.body

/-- They agree, on a text that needs no migration and that would read back when saved again. -/
structure Synced (store : ConfigStore Text) : Prop where
  readsBack : codec.ReadsBack store.document
  file : ∃ raw d, store.file = some raw ∧ codec.parse raw = some (d, false) ∧
    d.body = store.document.body

variable {codec} {host} {rt rt' : DaemonRuntime Text} {store : ConfigStore Text}

/-! ### What the daemon answers -/

theorem answersFrom_of_body {d : ConfigDocument} (hd : d.body = rt.config.document.body) :
    AnswersFrom codec host rt d where
  configGet _ _ _ _ := ⟨rt.config.document, rfl, hd.symm⟩
  routeEvaluate requestId context _ _ _ := by
    rw [evaluate_of_body_eq host.urlParse hd]
    rfl
  routeOpen requestId context _ _ _ := by
    rw [evaluate_of_body_eq host.urlParse hd]
    rfl
  readDoc _ _ _ _ _ _ := ⟨rt.config.document, rfl, hd.symm⟩
  editBased edit requestId snapshot doc writer now token hget hedit := by
    have hsnapshot : rt.config.document = snapshot := by
      simpa [DaemonRuntime.handle] using hget
    subst hsnapshot
    -- the edit does the same to `d`, which differs from the snapshot in `meta` alone
    refine ⟨doc.withMeta d.metaBlock, doc.withMeta ⟨some token, some writer⟩, ?_, rfl, rfl⟩
    rw [ConfigDocument.eq_withMeta_of_body_eq hd, Edit.apply_withMeta, hedit]
    rfl

theorem follows_iff_agrees : Follows codec host rt ↔ Agrees codec rt.config := by
  constructor
  · rintro ⟨d, hfile, h⟩
    obtain ⟨doc, hget, hbody⟩ := h.configGet "" 0 0#128 none
    have hdoc : rt.config.document = doc := by simpa [DaemonRuntime.handle] using hget
    subst hdoc
    exact ⟨d, hfile, hbody.symm⟩
  · rintro ⟨d, hfile, hbody⟩
    exact ⟨d, hfile, answersFrom_of_body hbody⟩

/-! ### Memory and file -/

theorem bind_docOf {file : Option Text} {raw : Text} {d : ConfigDocument} {migrated : Bool}
    (hfile : file = some raw) (hparse : codec.parse raw = some (d, migrated)) :
    file.bind codec.docOf = some d := by
  rw [hfile, Option.bind_some, Codec.docOf, hparse]
  rfl

theorem Synced.agrees (h : Synced codec store) : Agrees codec store := by
  obtain ⟨raw, d, hfile, hparse, hbody⟩ := h.file
  exact ⟨d, bind_docOf hfile hparse, hbody⟩

theorem synced_written {doc : ConfigDocument} (h : Synced codec store) (m : Meta)
    (hdoc : doc.body = store.document.body) :
    Synced codec { store with file := some (codec.toStringPretty (doc.withMeta m)) } where
  readsBack := h.readsBack
  file := by
    refine ⟨_, doc.withMeta m, rfl, ?_, hdoc⟩
    rw [ConfigDocument.eq_withMeta_of_body_eq hdoc, ConfigDocument.withMeta_withMeta]
    exact h.readsBack m

theorem body_of_agrees_written {doc : ConfigDocument} {m : Meta} (hc : codec.Decodes)
    (h : Agrees codec { store with file := some (codec.toStringPretty (doc.withMeta m)) }) :
    doc.body = store.document.body := by
  obtain ⟨d, hfile, hbody⟩ := h
  have hdocOf : codec.docOf (codec.toStringPretty (doc.withMeta m)) = some d := hfile
  rw [Codec.docOf, Option.map_eq_some_iff] at hdocOf
  obtain ⟨⟨d', migrated⟩, hparse, rfl⟩ := hdocOf
  have hd : d' = doc.withMeta m := (hc _ _ _ hparse).1
  have hmem : d'.body = store.document.body := hbody
  rw [hd] at hmem
  exact hmem

section Rewrite

variable {env : LptEnv} {writer : WriterId}
  {mutator : ConfigDocument → Except String ConfigDocument}

theorem synced_rewrite (h : Synced codec store) (hq : KeepsDocument codec store env mutator) :
    Synced codec { store with
      file := (rewriteFile codec store.file env writer mutator).2 } := by
  obtain ⟨raw, d, hfile, hparse, hbody⟩ := h.file
  have hsame : Synced codec { store with file := some raw } :=
    ⟨h.readsBack, raw, d, rfl, hparse, hbody⟩
  rw [hfile, rewriteFile_spec hparse]
  cases hm : mutator d with
  | error message => exact hsame
  | ok doc =>
    cases hf : env.fault with
    | some f => exact hsame
    | none => exact synced_written h _ ((hq d doc (bind_docOf hfile hparse) hm hf).trans hbody)

theorem keepsDocument_of_agrees (hc : codec.Decodes) (h : Synced codec store)
    (ha : Agrees codec { store with
      file := (rewriteFile codec store.file env writer mutator).2 }) :
    KeepsDocument codec store env mutator := by
  intro d doc hdocOf hm hf
  obtain ⟨raw, d', hfile, hparse, hbody⟩ := h.file
  rw [bind_docOf hfile hparse, Option.some.injEq] at hdocOf
  subst hdocOf
  rw [hfile, rewriteFile_spec hparse, hm, hf] at ha
  exact (body_of_agrees_written hc ha).trans hbody.symm

end Rewrite

section Replace

variable {doc : ConfigDocument} {writer : WriterId} {token : Uuid} {fault : Option Fault}

theorem synced_replace (h : Synced codec store) (hread : codec.ReadsBack doc)
    (hq : fault = none ∨ doc.body = store.document.body) :
    Synced codec (ConfigStore.replace codec store doc writer token fault).2 := by
  unfold ConfigStore.replace
  cases fault with
  | none => exact ⟨fun m => hread m, _, doc.withMeta ⟨some token, some writer⟩, rfl, hread _, rfl⟩
  | some f =>
    obtain hnone | hbody := hq
    · cases hnone
    obtain ⟨raw, d, hfile, hparse, hd⟩ := h.file
    rw [ConfigStore.persist_fault]
    split
    · exact ⟨fun m => hread m, raw, d, hfile, hparse, hd.trans hbody.symm⟩
    · exact ⟨fun m => hread m, raw, d, hfile, hparse, hd.trans hbody.symm⟩

theorem quiet_of_agrees_replace (h : Synced codec store)
    (ha : Agrees codec (ConfigStore.replace codec store doc writer token fault).2) :
    fault = none ∨ doc.body = store.document.body := by
  cases fault with
  | none => exact .inl rfl
  | some f =>
    right
    obtain ⟨raw, d, hfile, hparse, hd⟩ := h.file
    obtain ⟨d', hdocOf, hbody⟩ := ha
    have hfile' : store.file.bind codec.docOf = some d' := by
      rw [ConfigStore.replace, ConfigStore.persist_fault_file] at hdocOf
      exact hdocOf
    have hmem : d'.body = doc.body := by
      unfold ConfigStore.replace at hbody
      rw [ConfigStore.persist_fault] at hbody
      split at hbody
      · exact hbody
      · exact hbody
    rw [bind_docOf hfile hparse, Option.some.injEq] at hfile'
    rw [← hmem, ← hfile', hd]

end Replace

/-! ### Runs -/

/-- A request other than `ConfigReplace` leaves the store alone. -/
theorem step_request {r : Request} {now : Nat} {token : Uuid} {fault : Option Fault}
    (hr : ∀ requestId doc writer, r ≠ .configReplace requestId doc writer)
    (h : step codec host rt (.request r now token fault) = some rt') : rt'.config = rt.config := by
  cases h
  rw [DaemonRuntime.handle_config]
  split
  · rename_i requestId doc writer
    exact absurd rfl (hr requestId doc writer)
  · rfl

theorem step_replace {requestId : String} {doc : ConfigDocument} {writer : WriterId} {now : Nat}
    {token : Uuid} {fault : Option Fault}
    (h : step codec host rt (.request (.configReplace requestId doc writer) now token fault) =
      some rt') :
    rt'.config = (ConfigStore.replace codec rt.config doc writer token fault).2 := by
  cases h
  exact DaemonRuntime.handle_config

theorem synced_step {a : Action} (h : Synced codec rt.config) (hr : a.Readable codec)
    (hq : Quiet codec rt a) (hs : step codec host rt a = some rt') : Synced codec rt'.config := by
  cases a with
  | request r now token fault =>
    cases r with
    | configReplace requestId doc writer =>
      rw [step_replace hs]
      exact synced_replace h hr hq
    | _ =>
      rw [step_request (by intros; intro hc; cases hc) hs]
      exact h
  | mutate command env =>
    cases hs
    exact synced_rewrite h hq
  | configImport doc env =>
    cases hs
    exact synced_rewrite h hq
  | configCompile doc env =>
    cases hs
    exact synced_rewrite h hq
  | notify =>
    cases hs
    exact h

theorem quiet_of_agrees {a : Action} (hc : codec.Decodes) (h : Synced codec rt.config)
    (hs : step codec host rt a = some rt') (ha : Agrees codec rt'.config) : Quiet codec rt a := by
  cases a with
  | request r now token fault =>
    cases r with
    | configReplace requestId doc writer =>
      rw [step_replace hs] at ha
      exact quiet_of_agrees_replace h ha
    | _ => exact trivial
  | mutate command env =>
    cases hs
    exact keepsDocument_of_agrees hc h ha
  | configImport doc env =>
    cases hs
    exact keepsDocument_of_agrees hc h ha
  | configCompile doc env =>
    cases hs
    exact keepsDocument_of_agrees hc h ha
  | notify => exact trivial

theorem bootstrap_synced {file : Option Text} {version : String} {ids : Fin 4 → RuleId}
    {token : Uuid} {fault : Option Fault} {created : Bool}
    (h : DaemonRuntime.bootstrap codec file version ids token fault = .ok (rt, created))
    (hd : codec.ReadsBack rt.config.document) : Synced codec rt.config := by
  unfold DaemonRuntime.bootstrap at h
  split at h
  · cases h
  rename_i store created' hload
  cases h
  refine ⟨hd, ?_⟩
  by_cases hp : ∃ raw doc, file = some raw ∧ codec.parse raw = some (doc, false)
  · obtain ⟨raw, doc, rfl, hparse⟩ := hp
    simp only [ConfigStore.loadOrInit, hparse] at hload
    cases hload
    exact ⟨raw, doc, rfl, hparse, rfl⟩
  · have hwritten : store.file = some (codec.toStringPretty store.document) :=
      ConfigStore.loadOrInit_persisted (fun raw doc hf hparse => hp ⟨raw, doc, hf, hparse⟩) hload
    exact ⟨_, store.document, hwritten, hd store.document.metaBlock, rfl⟩

/-- **Following the file.** Of a run from bootstrap, every state has the daemon answering from the
document on disk exactly when no `lpt` command of the run changes that document and no
`ConfigReplace` fails with another one. -/
theorem follows_throughout_iff (hc : codec.Decodes) {file : Option Text} {version : String}
    {ids : Fin 4 → RuleId} {token : Uuid} {fault : Option Fault} {created : Bool}
    (hb : DaemonRuntime.bootstrap codec file version ids token fault = .ok (rt, created))
    (hd : codec.ReadsBack rt.config.document) {as : List Action}
    (hr : ∀ a ∈ as, a.Readable codec) (h : run (step codec host) rt as = some rt') :
    (∀ pre u, pre <+: as → run (step codec host) rt pre = some u → Follows codec host u) ↔
      Exec (step codec host) (Quiet codec) rt as rt' := by
  refine (Exec.of_run (G := fun _ a => a.Readable codec) (fun _ => hr) h).throughout_iff
    (I := fun rt => Synced codec rt.config) ?_ ?_ ?_ (bootstrap_synced hb hd)
  · intro rt hsync
    exact follows_iff_agrees.mpr hsync.agrees
  · intro rt a rt' hsync hread hq hs
    exact synced_step hsync hread hq hs
  · intro rt a rt' hsync _ hs hf
    exact quiet_of_agrees hc hsync hs (follows_iff_agrees.mp hf)

/-! ### Two runs -/

/-- A host on which no text is a URL. -/
def bareHost : Host where
  urlParse _ := none
  urlText := id
  urlError _ := "relative URL without a base"
  launch _ _ := .ok ()
  isDefaultBrowser := false
  installedBrowsers := 0
  configPath := "config.json"
  socketPath := "linkpilot.sock"
  configErrorText _ := "config error"

def freshIds : Fin 4 → RuleId := fun i => BitVec.ofNat 128 (i.val + 10)

/-- The daemon of a first launch. -/
def firstDaemon : DaemonRuntime FileText :=
  ⟨ConfigStore.firstLaunch freshIds 7#128, RouteHistory.new, "0.1.0"⟩

theorem firstDaemon_boots :
    DaemonRuntime.bootstrap fileCodec none "0.1.0" freshIds 7#128 none =
      .ok (firstDaemon, true) := rfl

def lptEnv : LptEnv := ⟨freshIds, 8#128, none, 9#128, none⟩

/-- The language is set to what it is. -/
def idleCommands : List Action :=
  [.mutate (.settingsSet fun s => { s with language := .system }) lptEnv, .notify,
    .request (.configGet "1") 0 0#128 none]

theorem follows_throughout_iff_idle :
    ∃ rt', Exec (step fileCodec bareHost) (Quiet fileCodec) firstDaemon idleCommands rt' ∧
      ∀ pre u, pre <+: idleCommands → run (step fileCodec bareHost) firstDaemon pre = some u →
        Follows fileCodec bareHost u := by
  have hexec : ∃ rt',
      Exec (step fileCodec bareHost) (Quiet fileCodec) firstDaemon idleCommands rt' := by
    refine ⟨_, .cons ?_ rfl <| .cons trivial rfl <| .cons trivial rfl <| .nil _⟩
    intro d e hd he _
    cases hd
    cases he
    rfl
  obtain ⟨rt', hexec⟩ := hexec
  have hread : ∀ a ∈ idleCommands, a.Readable fileCodec := by
    simp [idleCommands, Action.Readable]
  exact ⟨rt', hexec, (follows_throughout_iff fileCodec_decodes firstDaemon_boots
    (fileCodec_readsBack _) hread hexec.run_eq).mpr hexec⟩

/-- The rule that `lpt rules add` appends. -/
def addedRule : Rule := ⟨5#128, true, .always, .block, .gui, none, none⟩

def someUrl : RoutingContext := ⟨"https://example.com", ⟨.cli, none, none, none, none⟩, none, none⟩

/-- `lpt rules add` returns Ok and its change is notified; the daemon keeps answering from the four
rules it was started with, routes past the added one, and a `ConfigReplace` of its own snapshot
removes it from the file. -/
theorem daemon_serves_old_document :
    ∃ rt1 rt2 snapshot saved after,
      (mutateLocal fileCodec firstDaemon.config.file lptEnv (.rulesAdd addedRule)).1 = .ok () ∧
      run (step fileCodec bareHost) firstDaemon
        [.mutate (.rulesAdd addedRule) lptEnv, .notify, .notify] = some rt1 ∧
      rt1.config.file.bind fileCodec.docOf = some saved ∧ saved.rules.length = 5 ∧
      (rt1.handle fileCodec bareHost 0 0#128 none (.configGet "1")).1 =
        .configSnapshot "1" snapshot ∧ snapshot.rules.length = 4 ∧
      evaluate bareHost.urlParse saved someUrl = .block "matched rule" ∧
      (rt1.handle fileCodec bareHost 0 0#128 none (.routeEvaluate "2" someUrl)).1 =
        .routeDecision "2"
          (.ask [] "default target (no rule matched); default target not configured") ∧
      ¬ Follows fileCodec bareHost rt1 ∧
      step fileCodec bareHost rt1
        (.request (.configReplace "3" (setSmartRouting false snapshot) .gui) 0 3#128 none) =
          some rt2 ∧
      rt2.config.file.bind fileCodec.docOf = some after ∧ after.rules.length = 4 := by
  refine ⟨_, _, _, _, _, rfl, rfl, rfl, rfl, rfl, rfl, rfl, rfl, ?_, rfl, rfl, rfl⟩
  intro hf
  obtain ⟨d, hfile, hbody⟩ := follows_iff_agrees.mp hf
  cases hfile
  have hlen := congrArg (fun d => d.rules.length) hbody
  cases hlen

end Headless

end LinkPilot
