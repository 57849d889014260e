import LinkPilot.Migration
import LinkPilot.Lib.JsonText

/-!
# The messages as JSON

`Request` and `Response` of `crates/core/src/protocol.rs`, and what they are made of in
`routing.rs` and `history.rs`, as `serde` reads and writes them.

Principal results:

* `Response.fromJson_toJson` — a response is decoded as what was sent.
* `Response.plain_toJson` — its text is one that the reader of JSON texts gets back.
-/

set_option autoImplicit false

namespace LinkPilot

open Serde

/-! ## Numbers -/

/-- `u64` and `usize`. -/
def u64Json (n : Nat) : Json := .int (n % 18446744073709551616 : Nat)

def u64 : Json → Option Nat
  | .int (.ofNat n) => if n < 18446744073709551616 then some n else none
  | _ => none

theorem u64_u64Json (n : Nat) : u64 (u64Json n) = some (n % 18446744073709551616) := by
  have hlt : n % 18446744073709551616 < 18446744073709551616 := Nat.mod_lt n (by decide)
  show (if n % 18446744073709551616 < 18446744073709551616 then _ else _) = _
  rw [if_pos hlt]

theorem optionBool (o : Option Bool) :
    Json.option Json.boolean (.ofOption .bool o) = some o := by
  have hread : ∀ b : Bool, Json.boolean (.bool b) = some b := fun _ => rfl
  exact Json.option_ofOption hread rfl o

/-! ## `routing.rs` -/

def SourceKind.names : List (String × SourceKind) :=
  [("system", .system), ("browser-extension", .browserExtension), ("cli", .cli)]

theorem SourceKind.read_names (k : SourceKind) :
    Json.unitVariant names (Json.variantName names k) = some k := by
  cases k <;> rfl

namespace Source

def toJson (s : Source) : Json :=
  .obj [("type", Json.variantName SourceKind.names s.kind), ("app_name", .ofOption .str s.appName),
    ("bundle_id", .ofOption .str s.bundleId), ("browser", .ofOption .str s.browser),
    ("profile", .ofOption .str s.profile)]

def fromJson : Json → Option Source :=
  Json.record 5 fun f => do
    let kind ← f.required 0 "type" (Json.unitVariant SourceKind.names)
    let appName ← f.optional 1 "app_name" Json.string
    let bundleId ← f.optional 2 "bundle_id" Json.string
    let browser ← f.optional 3 "browser" Json.string
    let profile ← f.optional 4 "profile" Json.string
    some ⟨kind, appName, bundleId, browser, profile⟩

theorem fromJson_toJson (s : Source) : fromJson s.toJson = some s := by
  refine Json.record_obj ?_
  refine Fields.required_bind rfl (SourceKind.read_names _) ?_
  refine Fields.optional_bind rfl (optionString _) ?_
  refine Fields.optional_bind rfl (optionString _) ?_
  refine Fields.optional_bind rfl (optionString _) ?_
  exact Fields.optional_bind rfl (optionString _) rfl

end Source

namespace Navigation

def toJson (n : Navigation) : Json :=
  .obj [("transition_type", .ofOption .str n.transitionType),
    ("is_new_tab", .ofOption .bool n.isNewTab), ("is_redirect", .ofOption .bool n.isRedirect),
    ("opener_url", .ofOption .str n.openerUrl), ("referrer_url", .ofOption .str n.referrerUrl)]

def fromJson : Json → Option Navigation :=
  Json.record 5 fun f => do
    let transitionType ← f.optional 0 "transition_type" Json.string
    let isNewTab ← f.optional 1 "is_new_tab" Json.boolean
    let isRedirect ← f.optional 2 "is_redirect" Json.boolean
    let openerUrl ← f.optional 3 "opener_url" Json.string
    let referrerUrl ← f.optional 4 "referrer_url" Json.string
    some ⟨transitionType, isNewTab, isRedirect, openerUrl, referrerUrl⟩

theorem fromJson_toJson (n : Navigation) : fromJson n.toJson = some n := by
  refine Json.record_obj ?_
  refine Fields.optional_bind rfl (optionString _) ?_
  refine Fields.optional_bind rfl (optionBool _) ?_
  refine Fields.optional_bind rfl (optionBool _) ?_
  refine Fields.optional_bind rfl (optionString _) ?_
  exact Fields.optional_bind rfl (optionString _) rfl

end Navigation

namespace Environment

def toJson (e : Environment) : Json :=
  .obj [("network", .ofOption .str e.network), ("vpn", .ofOption .str e.vpn),
    ("workspace", .ofOption .str e.workspace)]

def fromJson : Json → Option Environment :=
  Json.record 3 fun f => do
    let network ← f.optional 0 "network" Json.string
    let vpn ← f.optional 1 "vpn" Json.string
    let workspace ← f.optional 2 "workspace" Json.string
    some ⟨network, vpn, workspace⟩

theorem fromJson_toJson (e : Environment) : fromJson e.toJson = some e := by
  refine Json.record_obj ?_
  refine Fields.optional_bind rfl (optionString _) ?_
  refine Fields.optional_bind rfl (optionString _) ?_
  exact Fields.optional_bind rfl (optionString _) rfl

end Environment

namespace RoutingContext

def toJson (c : RoutingContext) : Json :=
  .obj [("url", .str c.url), ("source", c.source.toJson),
    ("navigation", .ofOption Navigation.toJson c.navigation),
    ("environment", .ofOption Environment.toJson c.environment)]

def fromJson : Json → Option RoutingContext :=
  Json.record 4 fun f => do
    let url ← f.required 0 "url" Json.string
    let source ← f.required 1 "source" Source.fromJson
    let navigation ← f.defaulted 2 "navigation" none (Json.option Navigation.fromJson)
    let environment ← f.defaulted 3 "environment" none (Json.option Environment.fromJson)
    some ⟨url, source, navigation, environment⟩

theorem fromJson_toJson (c : RoutingContext) : fromJson c.toJson = some c := by
  refine Json.record_obj ?_
  refine Fields.required_bind rfl rfl ?_
  refine Fields.required_bind rfl c.source.fromJson_toJson ?_
  refine Fields.defaulted_bind rfl
    (Json.option_ofOption Navigation.fromJson_toJson rfl c.navigation) ?_
  exact Fields.defaulted_bind rfl
    (Json.option_ofOption Environment.fromJson_toJson rfl c.environment) rfl

end RoutingContext

theorem optionUuid (o : Option Uuid) :
    Json.option Uuid.fromJson (.ofOption Uuid.toJson o) = some o :=
  Json.option_ofOption Uuid.fromJson_toJson rfl o

theorem vec_targets (ts : List BrowserTarget) :
    Json.vec BrowserTarget.fromJson (.arr (ts.map BrowserTarget.toJson)) = some ts :=
  Json.vec_map fun t _ => t.fromJson_toJson

namespace RoutingDecision

def toJson : RoutingDecision → Json
  | .openWith target matchedRule reason =>
    .obj [("action", .str "open"), ("target", target.toJson),
      ("matched_rule", .ofOption Uuid.toJson matchedRule), ("reason", .str reason)]
  | .allow reason => .obj [("action", .str "allow"), ("reason", .str reason)]
  | .ask candidates reason =>
    .obj [("action", .str "ask"), ("candidates", .arr (candidates.map BrowserTarget.toJson)),
      ("reason", .str reason)]
  | .block reason => .obj [("action", .str "block"), ("reason", .str reason)]

def fromFields (action : String) (f : Fields) : Option RoutingDecision :=
  match action with
  | "open" => f.read 3 fun f => do
    let target ← f.required 0 "target" BrowserTarget.fromJson
    let matchedRule ← f.optional 1 "matched_rule" Uuid.fromJson
    let reason ← f.required 2 "reason" Json.string
    some (.openWith target matchedRule reason)
  | "allow" => f.read 1 fun f => (f.required 0 "reason" Json.string).map .allow
  | "ask" => f.read 2 fun f => do
    let candidates ← f.required 0 "candidates" (Json.vec BrowserTarget.fromJson)
    let reason ← f.required 1 "reason" Json.string
    some (.ask candidates reason)
  | "block" => f.read 1 fun f => (f.required 0 "reason" Json.string).map .block
  | _ => none

def fromJson (j : Json) : Option RoutingDecision :=
  (j.tagged "action").bind fun (action, f) => fromFields action f

theorem fromJson_toJson (d : RoutingDecision) : fromJson d.toJson = some d := by
  cases d with
  | openWith target matchedRule reason =>
    refine Fields.required_bind rfl target.fromJson_toJson ?_
    refine Fields.optional_bind rfl (optionUuid matchedRule) ?_
    exact Fields.required_bind rfl rfl rfl
  | allow reason => rfl
  | ask candidates reason =>
    refine Fields.required_bind rfl (vec_targets candidates) ?_
    exact Fields.required_bind rfl rfl rfl
  | block reason => rfl

end RoutingDecision

namespace MatcherEval

mutual

def toJson : MatcherEval → Json
  | .always matched => .obj [("op", .str "always"), ("matched", .bool matched)]
  | .all matched of =>
    .obj [("op", .str "all"), ("matched", .bool matched), ("of", .arr (toJsonAll of))]
  | .any matched of =>
    .obj [("op", .str "any"), ("matched", .bool matched), ("of", .arr (toJsonAll of))]
  | .not matched of => .obj [("op", .str "not"), ("matched", .bool matched), ("of", of.toJson)]
  | .urlHost matched pattern =>
    .obj [("op", .str "url-host"), ("matched", .bool matched), ("pattern", .str pattern)]
  | .urlPath matched pattern =>
    .obj [("op", .str "url-path"), ("matched", .bool matched), ("pattern", .str pattern)]
  | .sourceApp matched name =>
    .obj [("op", .str "source-app"), ("matched", .bool matched), ("name", .str name)]
  | .sourceBrowser matched browser =>
    .obj [("op", .str "source-browser"), ("matched", .bool matched), ("browser", .str browser)]
  | .sourceProfile matched profile =>
    .obj [("op", .str "source-profile"), ("matched", .bool matched), ("profile", .str profile)]

def toJsonAll : List MatcherEval → List Json
  | [] => []
  | m :: ms => m.toJson :: toJsonAll ms

end

/-- A variant of two fields, the first of them `matched`. -/
def withMatched {α : Type} (key : String) (dec : Json → Option α) (make : Bool → α → MatcherEval)
    (f : Fields) : Option MatcherEval :=
  f.read 2 fun f => do
    let matched ← f.required 0 "matched" Json.boolean
    let field ← f.required 1 key dec
    some (make matched field)

/-- The fields of the variant `op`; `dec` reads a nested trace. -/
def fromFields (dec : Json → Option MatcherEval) (op : String) (f : Fields) : Option MatcherEval :=
  match op with
  | "always" => f.read 1 fun f => (f.required 0 "matched" Json.boolean).map .always
  | "all" => withMatched "of" (Json.vec dec) .all f
  | "any" => withMatched "of" (Json.vec dec) .any f
  | "not" => withMatched "of" dec .not f
  | "url-host" => withMatched "pattern" Json.string .urlHost f
  | "url-path" => withMatched "pattern" Json.string .urlPath f
  | "source-app" => withMatched "name" Json.string .sourceApp f
  | "source-browser" => withMatched "browser" Json.string .sourceBrowser f
  | "source-profile" => withMatched "profile" Json.string .sourceProfile f
  | _ => none

/-- The decoder on values nested at most `n` deep. -/
def decode : Nat → Json → Option MatcherEval
  | 0, _ => none
  | n + 1, j => (j.tagged "op").bind fun (op, f) => fromFields (decode n) op f

def fromJson (j : Json) : Option MatcherEval := decode j.depth j

theorem withMatched_eq {α : Type} {key : String} {dec : Json → Option α}
    {make : Bool → α → MatcherEval} {entries : List (String × Json)} {matched : Bool} {j : Json}
    {a : α} (hmatched : (Fields.named entries).get 0 "matched" = some (some (.bool matched)))
    (hget : (Fields.named entries).get 1 key = some (some j)) (hdec : dec j = some a) :
    withMatched key dec make (.named entries) = some (make matched a) :=
  Fields.required_bind hmatched rfl (Fields.required_bind hget hdec rfl)

mutual

theorem decode_toJson : ∀ (m : MatcherEval) (n : Nat), m.toJson.depth ≤ n →
    decode n m.toJson = some m
  | .always _, 0, h | .all _ _, 0, h | .any _ _, 0, h | .not _ _, 0, h | .urlHost _ _, 0, h
  | .urlPath _ _, 0, h | .sourceApp _ _, 0, h | .sourceBrowser _ _, 0, h
  | .sourceProfile _ _, 0, h => absurd h (Nat.not_succ_le_zero _)
  | .always _, _ + 1, _ | .urlHost _ _, _ + 1, _ | .urlPath _ _, _ + 1, _
  | .sourceApp _ _, _ + 1, _ | .sourceBrowser _ _, _ + 1, _ | .sourceProfile _ _, _ + 1, _ => rfl
  | .all matched of, n + 1, h => by
    simp only [toJson, Json.depth, Json.depthEntries] at h
    exact withMatched_eq rfl rfl (mapM_decode of n (by omega))
  | .any matched of, n + 1, h => by
    simp only [toJson, Json.depth, Json.depthEntries] at h
    exact withMatched_eq rfl rfl (mapM_decode of n (by omega))
  | .not matched of, n + 1, h => by
    simp only [toJson, Json.depth, Json.depthEntries] at h
    exact withMatched_eq rfl rfl (decode_toJson of n (by omega))

theorem mapM_decode : ∀ (ms : List MatcherEval) (n : Nat), Json.depthElems (toJsonAll ms) ≤ n →
    Json.vec (decode n) (.arr (toJsonAll ms)) = some ms
  | [], _, _ => rfl
  | m :: ms, n, h => by
    simp only [toJsonAll, Json.depthElems, Nat.max_le] at h
    have hms : (toJsonAll ms).mapM (decode n) = some ms := mapM_decode ms n h.2
    show (m.toJson :: toJsonAll ms).mapM (decode n) = some (m :: ms)
    rw [List.mapM_cons, decode_toJson m n h.1, hms]
    rfl

end

theorem fromJson_toJson (m : MatcherEval) : fromJson m.toJson = some m :=
  decode_toJson m _ (Nat.le_refl _)

end MatcherEval

/-! ## `history.rs` -/

namespace RouteRecord

def toJson (r : RouteRecord) : Json :=
  .obj [("timestamp_ms", u64Json r.timestampMs), ("context", r.context.toJson),
    ("decision", r.decision.toJson), ("matched_rule", .ofOption Uuid.toJson r.matchedRule),
    ("explanation", .ofOption MatcherEval.toJson r.explanation)]

def fromJson : Json → Option RouteRecord :=
  Json.record 5 fun f => do
    let timestampMs ← f.required 0 "timestamp_ms" u64
    let context ← f.required 1 "context" RoutingContext.fromJson
    let decision ← f.required 2 "decision" RoutingDecision.fromJson
    let matchedRule ← f.optional 3 "matched_rule" Uuid.fromJson
    let explanation ← f.defaulted 4 "explanation" none (Json.option MatcherEval.fromJson)
    some ⟨timestampMs, context, decision, matchedRule, explanation⟩

/-- The record with its time as the `u64` that it is. -/
def wrap (r : RouteRecord) : RouteRecord :=
  { r with timestampMs := r.timestampMs % 18446744073709551616 }

theorem fromJson_toJson (r : RouteRecord) : fromJson r.toJson = some r.wrap := by
  refine Json.record_obj ?_
  refine Fields.required_bind rfl (u64_u64Json _) ?_
  refine Fields.required_bind rfl r.context.fromJson_toJson ?_
  refine Fields.required_bind rfl r.decision.fromJson_toJson ?_
  refine Fields.optional_bind rfl (optionUuid _) ?_
  exact Fields.defaulted_bind rfl
    (Json.option_ofOption MatcherEval.fromJson_toJson rfl r.explanation) rfl

end RouteRecord

/-! ## `protocol.rs` -/

namespace DoctorReport

def toJson (r : DoctorReport) : Json :=
  .obj [("daemon_version", .str r.daemonVersion), ("is_default_browser", .bool r.isDefaultBrowser),
    ("config_path", .ofOption .str r.configPath),
    ("installed_browser_count", u64Json r.installedBrowserCount),
    ("ipc_socket_path", .ofOption .str r.ipcSocketPath)]

def fromJson : Json → Option DoctorReport :=
  Json.record 5 fun f => do
    let daemonVersion ← f.required 0 "daemon_version" Json.string
    let isDefaultBrowser ← f.required 1 "is_default_browser" Json.boolean
    let configPath ← f.optional 2 "config_path" Json.string
    let installedBrowserCount ← f.required 3 "installed_browser_count" u64
    let ipcSocketPath ← f.optional 4 "ipc_socket_path" Json.string
    some ⟨daemonVersion, isDefaultBrowser, configPath, installedBrowserCount, ipcSocketPath⟩

/-- The report with its count as the `usize` that it is. -/
def wrap (r : DoctorReport) : DoctorReport :=
  { r with installedBrowserCount := r.installedBrowserCount % 18446744073709551616 }

theorem fromJson_toJson (r : DoctorReport) : fromJson r.toJson = some r.wrap := by
  refine Json.record_obj ?_
  refine Fields.required_bind rfl rfl ?_
  refine Fields.required_bind rfl rfl ?_
  refine Fields.optional_bind rfl (optionString _) ?_
  refine Fields.required_bind rfl (u64_u64Json _) ?_
  exact Fields.optional_bind rfl (optionString _) rfl

end DoctorReport

namespace Response

def requestId : Response → String
  | .routeDecision requestId _ | .configSnapshot requestId _ | .doctorReport requestId _
  | .ack requestId | .pong requestId _ | .error requestId _ _
  | .routeHistorySnapshot requestId _ => requestId

def toJson : Response → Json
  | .routeDecision requestId decision =>
    .obj [("type", .str "route-decision"), ("request_id", .str requestId),
      ("decision", decision.toJson)]
  | .configSnapshot requestId doc =>
    .obj [("type", .str "config-snapshot"), ("request_id", .str requestId), ("doc", doc.toJson)]
  | .doctorReport requestId report =>
    .obj [("type", .str "doctor-report"), ("request_id", .str requestId),
      ("report", report.toJson)]
  | .ack requestId => .obj [("type", .str "ack"), ("request_id", .str requestId)]
  | .pong requestId daemonVersion =>
    .obj [("type", .str "pong"), ("request_id", .str requestId),
      ("daemon_version", .str daemonVersion)]
  | .error requestId code message =>
    .obj [("type", .str "error"), ("request_id", .str requestId), ("code", .str code),
      ("message", .str message)]
  | .routeHistorySnapshot requestId records =>
    .obj [("type", .str "route-history-snapshot"), ("request_id", .str requestId),
      ("records", .arr (records.map RouteRecord.toJson))]

def fromFields (type : String) (f : Fields) : Option Response :=
  match type with
  | "route-decision" => f.read 2 fun f => do
    let requestId ← f.required 0 "request_id" Json.string
    let decision ← f.required 1 "decision" RoutingDecision.fromJson
    some (.routeDecision requestId decision)
  | "config-snapshot" => f.read 2 fun f => do
    let requestId ← f.required 0 "request_id" Json.string
    let doc ← f.required 1 "doc" ConfigDocument.fromJson
    some (.configSnapshot requestId doc)
  | "doctor-report" => f.read 2 fun f => do
    let requestId ← f.required 0 "request_id" Json.string
    let report ← f.required 1 "report" DoctorReport.fromJson
    some (.doctorReport requestId report)
  | "ack" => f.read 1 fun f => (f.required 0 "request_id" Json.string).map .ack
  | "pong" => f.read 2 fun f => do
    let requestId ← f.required 0 "request_id" Json.string
    let daemonVersion ← f.required 1 "daemon_version" Json.string
    some (.pong requestId daemonVersion)
  | "error" => f.read 3 fun f => do
    let requestId ← f.required 0 "request_id" Json.string
    let code ← f.required 1 "code" Json.string
    let message ← f.required 2 "message" Json.string
    some (.error requestId code message)
  | "route-history-snapshot" => f.read 2 fun f => do
    let requestId ← f.required 0 "request_id" Json.string
    let records ← f.required 1 "records" (Json.vec RouteRecord.fromJson)
    some (.routeHistorySnapshot requestId records)
  | _ => none

def fromJson (j : Json) : Option Response :=
  (j.tagged "type").bind fun (type, f) => fromFields type f

/-- The response with its counts and times as the 64-bit numbers that they are. -/
def wrap : Response → Response
  | .doctorReport requestId report => .doctorReport requestId report.wrap
  | .routeHistorySnapshot requestId records =>
    .routeHistorySnapshot requestId (records.map RouteRecord.wrap)
  | r => r

theorem requestId_wrap (r : Response) : r.wrap.requestId = r.requestId := by
  cases r <;> rfl

theorem vec_records (rs : List RouteRecord) :
    Json.vec RouteRecord.fromJson (.arr (rs.map RouteRecord.toJson)) =
      some (rs.map RouteRecord.wrap) := by
  show (rs.map RouteRecord.toJson).mapM RouteRecord.fromJson = _
  induction rs with
  | nil => rfl
  | cons r rs ih =>
    rw [List.map_cons, List.mapM_cons, r.fromJson_toJson, ih]
    rfl

/-- **Round trip.** A response is decoded as what was sent. -/
theorem fromJson_toJson (r : Response) : fromJson r.toJson = some r.wrap := by
  cases r with
  | routeDecision requestId decision =>
    exact Fields.required_bind rfl decision.fromJson_toJson rfl
  | configSnapshot requestId doc =>
    exact Fields.required_bind rfl doc.fromJson_toJson rfl
  | doctorReport requestId report =>
    exact Fields.required_bind rfl report.fromJson_toJson rfl
  | routeHistorySnapshot requestId records =>
    exact Fields.required_bind rfl (vec_records records) rfl
  | _ => rfl

end Response

namespace Request

def requestId : Request → String
  | .routeEvaluate requestId _ | .routeOpen requestId _ | .configGet requestId
  | .configReplace requestId _ _ | .doctor requestId | .statePing requestId
  | .routeHistory requestId _ => requestId

/-- A variant of a request id and a context. -/
def withContext (make : String → RoutingContext → Request) (f : Fields) : Option Request :=
  f.read 2 fun f => do
    let requestId ← f.required 0 "request_id" Json.string
    let context ← f.required 1 "context" RoutingContext.fromJson
    some (make requestId context)

/-- `Request` as JSON. -/
def fromJson (j : Json) : Option Request :=
  (j.tagged "type").bind fun (type, f) =>
    match type with
    | "route-evaluate" => withContext .routeEvaluate f
    | "route-open" => withContext .routeOpen f
    | "config-get" => f.read 1 fun f => (f.required 0 "request_id" Json.string).map .configGet
    | "config-replace" => configReplaceFromJson j
    | "doctor" => f.read 1 fun f => (f.required 0 "request_id" Json.string).map .doctor
    | "state-ping" => f.read 1 fun f => (f.required 0 "request_id" Json.string).map .statePing
    | "route-history" => f.read 2 fun f => do
      let requestId ← f.required 0 "request_id" Json.string
      let limit ← f.defaulted 1 "limit" none (Json.option u64)
      some (.routeHistory requestId limit)
    | _ => none

end Request

/-! ## Texts -/

theorem plain_ofOption {α : Type} {enc : α → Json} (h : ∀ a, (enc a).Plain) (o : Option α) :
    (Json.ofOption enc o).Plain := by
  cases o with
  | none => trivial
  | some a => exact h a

theorem plain_arr {α : Type} {enc : α → Json} (h : ∀ a, (enc a).Plain) (as : List α) :
    (Json.arr (as.map enc)).Plain := by
  refine Json.plainElems_iff.mpr fun j hj => ?_
  obtain ⟨a, -, rfl⟩ := List.mem_map.mp hj
  exact h a

theorem plain_u32 (n : UInt32) : (Json.int n.toNat).Plain := by
  have hlt : n.toNat < 4294967296 := n.toNat_lt
  show Json.Is64Bit _
  unfold Json.Is64Bit
  omega

theorem plain_u64Json (n : Nat) : (u64Json n).Plain := by
  have hlt : n % 18446744073709551616 < 18446744073709551616 := Nat.mod_lt n (by decide)
  show Json.Is64Bit _
  unfold Json.Is64Bit
  omega

section Plain

attribute [local simp] Json.Plain Json.PlainEntries Json.variantName

theorem plain_str (s : String) : (Json.str s).Plain := trivial

theorem Uuid.plain_toJson (id : Uuid) : (Uuid.toJson id).Plain := trivial

theorem plain_optionString (o : Option String) : (Json.ofOption Json.str o).Plain :=
  plain_ofOption plain_str o

theorem plain_optionUuid (o : Option Uuid) : (Json.ofOption Uuid.toJson o).Plain :=
  plain_ofOption Uuid.plain_toJson o

theorem plain_optionU32 (o : Option UInt32) :
    (Json.ofOption (fun n : UInt32 => Json.int n.toNat) o).Plain := plain_ofOption plain_u32 o

theorem BrowserTarget.plain_toJson (t : BrowserTarget) : t.toJson.Plain := by
  simp [toJson, plain_optionString]

theorem InstalledBrowser.plain_toJson (b : InstalledBrowser) : b.toJson.Plain := by
  simp [toJson, plain_optionString]

mutual

theorem MatcherTree.plain_toJson : ∀ m : MatcherTree, m.toJson.Plain
  | .all of | .any of => by simp [MatcherTree.toJson, MatcherTree.plain_toJsonAll of]
  | .not of => by simp [MatcherTree.toJson, MatcherTree.plain_toJson of]
  | .sourceApp name bundleId => by simp [MatcherTree.toJson, plain_optionString]
  | .always | .urlHost _ | .urlPath _ | .sourceBrowser _ | .sourceProfile _ => by
    simp [MatcherTree.toJson]

theorem MatcherTree.plain_toJsonAll : ∀ ms : List MatcherTree,
    Json.PlainElems (MatcherTree.toJsonAll ms)
  | [] => trivial
  | m :: ms => ⟨MatcherTree.plain_toJson m, MatcherTree.plain_toJsonAll ms⟩

end

theorem Action.plain_toJson (a : Action) : a.toJson.Plain := by
  cases a <;> simp [toJson, BrowserTarget.plain_toJson]

theorem Rule.plain_toJson (r : Rule) : r.toJson.Plain := by
  simp [toJson, Uuid.plain_toJson, MatcherTree.plain_toJson, Action.plain_toJson, plain_optionString]

theorem Workspace.plain_toJson (w : Workspace) : w.toJson.Plain := by
  simp [toJson, plain_optionString]

theorem plain_strings (ss : List String) : (Json.arr (ss.map Json.str)).Plain :=
  plain_arr plain_str ss

theorem ProfileOrders.plain_toJson (m : ProfileOrders) : m.toJson.Plain := by
  show Json.PlainEntries _
  induction m.entries with
  | nil => trivial
  | cons e es ih => exact ⟨plain_strings e.2, ih⟩

theorem Settings.plain_toJson (s : Settings) : s.toJson.Plain := by
  have hstrings := plain_strings s.disabledBrowsers
  have horders := s.profileOrders.plain_toJson
  simp only [Json.Plain] at hstrings
  simp [toJson, plain_optionU32, horders, hstrings]

theorem Meta.plain_toJson (m : Meta) : m.toJson.Plain := by
  have hname : ∀ w, (Json.variantName WriterId.names w).Plain := fun _ => trivial
  have hwriter := plain_ofOption hname m.lastWriter
  simp [toJson, plain_optionUuid, hwriter]

theorem ConfigDocument.plain_toJson (d : ConfigDocument) : d.toJson.Plain := by
  have hrules := plain_arr Rule.plain_toJson d.rules
  have hworkspaces := plain_arr Workspace.plain_toJson d.workspaces
  have hbrowsers := plain_arr InstalledBrowser.plain_toJson d.customBrowsers
  have hversion := plain_u32 d.version
  exact ⟨hversion, d.defaultTarget.plain_toJson, hrules, hworkspaces, hbrowsers,
    d.settings.plain_toJson, d.metaBlock.plain_toJson, trivial⟩

theorem Source.plain_toJson (s : Source) : s.toJson.Plain := by
  simp [toJson, plain_optionString]

theorem Navigation.plain_toJson (n : Navigation) : n.toJson.Plain := by
  have hbool : ∀ o : Option Bool, (Json.ofOption Json.bool o).Plain :=
    plain_ofOption fun _ => trivial
  simp [toJson, plain_optionString, hbool]

theorem Environment.plain_toJson (e : Environment) : e.toJson.Plain := by
  simp [toJson, plain_optionString]

theorem RoutingContext.plain_toJson (c : RoutingContext) : c.toJson.Plain :=
  ⟨trivial, c.source.plain_toJson, plain_ofOption Navigation.plain_toJson c.navigation,
    plain_ofOption Environment.plain_toJson c.environment, trivial⟩

theorem RoutingDecision.plain_toJson (d : RoutingDecision) : d.toJson.Plain := by
  cases d with
  | ask candidates reason =>
    exact ⟨trivial, plain_arr BrowserTarget.plain_toJson candidates, trivial, trivial⟩
  | _ => simp [toJson, BrowserTarget.plain_toJson, plain_optionUuid]

mutual

theorem MatcherEval.plain_toJson : ∀ m : MatcherEval, m.toJson.Plain
  | .all _ of | .any _ of => by simp [MatcherEval.toJson, MatcherEval.plain_toJsonAll of]
  | .not _ of => by simp [MatcherEval.toJson, MatcherEval.plain_toJson of]
  | .always _ | .urlHost _ _ | .urlPath _ _ | .sourceApp _ _ | .sourceBrowser _ _
  | .sourceProfile _ _ => by simp [MatcherEval.toJson]

theorem MatcherEval.plain_toJsonAll : ∀ ms : List MatcherEval,
    Json.PlainElems (MatcherEval.toJsonAll ms)
  | [] => trivial
  | m :: ms => ⟨MatcherEval.plain_toJson m, MatcherEval.plain_toJsonAll ms⟩

end

theorem RouteRecord.plain_toJson (r : RouteRecord) : r.toJson.Plain :=
  ⟨plain_u64Json _, r.context.plain_toJson, r.decision.plain_toJson, plain_optionUuid _,
    plain_ofOption MatcherEval.plain_toJson r.explanation, trivial⟩

theorem DoctorReport.plain_toJson (r : DoctorReport) : r.toJson.Plain := by
  have hcount := plain_u64Json r.installedBrowserCount
  simp [toJson, plain_optionString, hcount]

/-- The text of a response is one that the reader of JSON texts gets back. -/
theorem Response.plain_toJson (r : Response) : r.toJson.Plain := by
  cases r with
  | routeHistorySnapshot requestId records =>
    exact ⟨trivial, trivial, plain_arr RouteRecord.plain_toJson records, trivial⟩
  | _ =>
    simp [toJson, RoutingDecision.plain_toJson, ConfigDocument.plain_toJson,
      DoctorReport.plain_toJson]

end Plain

end LinkPilot
