import LinkPilot.Dispatch
import LinkPilot.Server

/-!
# Unknown verbs

When a reply of `serve_connection_unix` has the code `unknown-verb`, with the headless daemon behind
it and with the GUI's handler (`apps/desktop/src-tauri/src/ipc_host.rs`).

* `respond_unknown_iff` — every frame that is no request gets that code, and no other frame.
* `unknown_verb_iff` — so the code means what it says exactly for requests and for objects whose
  type names no variant.
* `known_verb_unknown` — a `route-open` without a context is answered as an unknown verb.
-/

set_option autoImplicit false

namespace LinkPilot.UnknownVerb

open Serde

/-! ## The GUI's handler -/

section Gui

variable {Text : Type}

/-- `DaemonRuntime::evaluate_and_log_with_ask_shortcut`, at time `now`. -/
def evaluateAndLogWithAskShortcut (host : Host) (rt : DaemonRuntime Text) (now : Nat)
    (context : RoutingContext) (shortcutPressed : Bool) : Explained × DaemonRuntime Text :=
  let explained := evaluateExplainedWithAskShortcut host.urlParse rt.config.document context
    shortcutPressed
  let record := RouteRecord.withExplanation now context explained.decision explained.explanation
  (explained, { rt with history := rt.history.log record })

/-- `DaemonHandler::handle`, for the `i`-th request of a connection. -/
def guiHandler (codec : Codec Text) (host : Host) (env : Nat → RequestEnv Text)
    (desktop : Nat → Desktop) (shortcutPressed : Nat → Bool) (errorText : List UInt8 → String) :
    Handler (DaemonRuntime Text) where
  handle i rt
    | .routeOpen requestId context =>
      let (explained, rt) := evaluateAndLogWithAskShortcut host ((env i).others rt) (env i).now
        context (shortcutPressed i)
      match (execute (desktop i) rt.config.document explained.decision context.url).outcome with
      | .failed err => (.error requestId "launch-failed" err, rt)
      | _ => (.routeDecision requestId explained.decision, rt)
    | other => (daemonHandler codec host env errorText).handle i rt other
  errorText := errorText

end Gui

/-! ## Codes -/

def code? : Response → Option String
  | .error _ code _ => some code
  | _ => none

/-- The handler leaves the code to the server. -/
def LeavesCode {σ : Type} (handler : Handler σ) : Prop :=
  ∀ i s request, code? (handler.handle i s request).1 ≠ some ERROR_UNKNOWN_VERB

section Codes

variable {Text : Type} (codec : Codec Text) (host : Host) (env : Nat → RequestEnv Text)
  (desktop : Nat → Desktop) (shortcutPressed : Nat → Bool) (errorText : List UInt8 → String)

theorem code?_openDecision (requestId rawUrl : String) (decision : RoutingDecision) :
    code? (openDecision host requestId rawUrl decision).1 ≠ some ERROR_UNKNOWN_VERB := by
  have hne : ∀ code ∈ ["bad-url", "launch-failed", "ask-unsupported-headless"],
      (some code : Option String) ≠ some ERROR_UNKNOWN_VERB := by decide
  unfold openDecision
  split
  · split
    · exact hne "bad-url" (by simp)
    · split
      · exact hne "launch-failed" (by simp)
      · intro h
        cases h
  · exact hne "ask-unsupported-headless" (by simp)
  · intro h
    cases h
  · intro h
    cases h

theorem daemonHandler_leavesCode : LeavesCode (daemonHandler codec host env errorText) := by
  intro i rt request
  cases request with
  | routeOpen requestId context => exact code?_openDecision host requestId context.url _
  | configReplace requestId doc writer =>
    simp only [daemonHandler, handle_configReplace]
    cases (env i).fault with
    | none =>
      intro h
      cases h
    | some f => exact fun h => absurd h (by simp [code?, ERROR_UNKNOWN_VERB])
  | _ =>
    intro h
    cases h

theorem guiHandler_leavesCode :
    LeavesCode (guiHandler codec host env desktop shortcutPressed errorText) := by
  intro i rt request
  cases request with
  | routeOpen requestId context =>
    simp only [guiHandler]
    split
    · exact fun h => absurd h (by simp [code?, ERROR_UNKNOWN_VERB])
    · intro h
      cases h
  | configReplace requestId doc writer =>
    exact daemonHandler_leavesCode codec host env errorText i rt (.configReplace requestId doc writer)
  | _ =>
    intro h
    cases h

end Codes

/-! ## What the code says of a frame -/

/-- The variants of `Request`. -/
def verbs : List String :=
  ["route-evaluate", "route-open", "config-get", "config-replace", "doctor", "state-ping",
    "route-history"]

/-- The body is a JSON object with a type, and no type that it has names a variant.  The grammar of
JSON bounds neither numbers nor nesting. -/
def NamesNoVariant (raw : List UInt8) : Prop :=
  ∃ entries, Json.tokens (fun _ => true) raw = some (.obj entries) ∧
    (∃ v, ("type", v) ∈ entries) ∧ ∀ verb ∈ verbs, ("type", .str verb) ∉ entries

/-- The reply has the code exactly when the body names no variant. -/
def MeansUnknownVerb {σ : Type} (serde : SerdeJson) (handler : Handler σ) (i : Nat) (s : σ)
    (raw : List UInt8) : Prop :=
  code? (respond serde handler i s raw).1 = some ERROR_UNKNOWN_VERB ↔ NamesNoVariant raw

section Replies

variable {σ : Type} {serde : SerdeJson} {handler : Handler σ}

/-- **The code** is that of every frame that is no request. -/
theorem respond_unknown_iff (hhandler : LeavesCode handler) (i : Nat) (s : σ) (raw : List UInt8) :
    code? (respond serde handler i s raw).1 = some ERROR_UNKNOWN_VERB ↔
      serde.fromSlice Request.fromJson raw = none := by
  unfold respond
  cases serde.fromSlice Request.fromJson raw with
  | some request => exact iff_of_false (hhandler i s request) nofun
  | none => exact iff_of_true rfl rfl

/-- A request names its variant. -/
theorem tagged_of_fromJson {j : Json} {request : Request} (h : Request.fromJson j = some request) :
    ∃ type ∈ verbs, ∃ fields, j.tagged "type" = some (type, fields) := by
  unfold Request.fromJson at h
  obtain ⟨⟨type, fields⟩, htagged, h⟩ := Option.bind_eq_some_iff.mp h
  refine ⟨type, ?_, fields, htagged⟩
  by_contra hverb
  simp only [verbs, List.mem_cons, List.not_mem_nil, or_false, not_or] at hverb
  obtain ⟨h1, h2, h3, h4, h5, h6, h7⟩ := hverb
  simp only at h
  cases h

/-- In an object the tag stands among the entries. -/
theorem mem_of_tagged {entries : List (String × Json)} {tag type : String} {fields : Fields}
    (h : (Json.obj entries).tagged tag = some (type, fields)) : (tag, .str type) ∈ entries := by
  unfold Json.tagged at h
  simp only at h
  split at h
  · rename_i key s hfilter
    cases h
    have hmem : (key, Json.str type) ∈ entries.filter fun e => e.1 == tag := by
      rw [hfilter]
      exact List.mem_singleton_self _
    obtain ⟨hmem, hkey⟩ := List.mem_filter.mp hmem
    rwa [← eq_of_beq hkey]
  · cases h

theorem fromSlice_none_of_namesNoVariant {raw : List UInt8} (h : NamesNoVariant raw) :
    serde.fromSlice Request.fromJson raw = none := by
  obtain ⟨entries, htokens, -, hverbs⟩ := h
  by_contra hsome
  obtain ⟨request, hrequest⟩ := Option.ne_none_iff_exists'.mp hsome
  obtain ⟨j, hj, hdecoded⟩ := Option.bind_eq_some_iff.mp hrequest
  -- the grammar reads what the reader with bounded numbers reads
  have hgrammar := @Json.tokens_mono serde.finite (fun _ => true) (fun _ _ => rfl) _ _ hj
  rw [htokens, Option.some.injEq] at hgrammar
  obtain ⟨-, hdecoded⟩ := Json.fromStr_eq_some_iff.mp hdecoded
  rw [← hgrammar] at hdecoded
  obtain ⟨type, hverb, fields, htagged⟩ := tagged_of_fromJson hdecoded
  exact hverbs type hverb (mem_of_tagged htagged)

/-- Where the code means what it says. -/
theorem meansUnknownVerb_iff (hhandler : LeavesCode handler) (i : Nat) (s : σ)
    (raw : List UInt8) :
    MeansUnknownVerb serde handler i s raw ↔
      (∃ request, serde.fromSlice Request.fromJson raw = some request) ∨ NamesNoVariant raw := by
  unfold MeansUnknownVerb
  rw [respond_unknown_iff hhandler]
  by_cases hnames : NamesNoVariant raw
  · exact iff_of_true (iff_of_true (fromSlice_none_of_namesNoVariant hnames) hnames) (.inr hnames)
  · cases hrequest : serde.fromSlice Request.fromJson raw with
    | some request =>
      exact iff_of_true (iff_of_false nofun hnames) (.inl ⟨request, rfl⟩)
    | none =>
      refine iff_of_false (fun h => hnames (h.mp rfl)) ?_
      rintro (⟨request, hsome⟩ | h)
      · cases hsome
      · exact hnames h

end Replies

/-- **Unknown verbs.**  For every frame body the reply has the code `unknown-verb` exactly when the
body is an object whose type names no variant, if and only if the body is such an object or a
request: so it is for the headless daemon and for the GUI. -/
theorem unknown_verb_iff {Text : Type} (serde : SerdeJson) (codec : Codec Text) (host : Host)
    (env : Nat → RequestEnv Text) (desktop : Nat → Desktop) (shortcutPressed : Nat → Bool)
    (errorText : List UInt8 → String) (i : Nat) (rt : DaemonRuntime Text) (raw : List UInt8) :
    (MeansUnknownVerb serde (daemonHandler codec host env errorText) i rt raw ↔
        (∃ request, serde.fromSlice Request.fromJson raw = some request) ∨ NamesNoVariant raw) ∧
      (MeansUnknownVerb serde (guiHandler codec host env desktop shortcutPressed errorText) i rt
          raw ↔
        (∃ request, serde.fromSlice Request.fromJson raw = some request) ∨ NamesNoVariant raw) :=
  ⟨meansUnknownVerb_iff (daemonHandler_leavesCode codec host env errorText) i rt raw,
    meansUnknownVerb_iff
      (guiHandler_leavesCode codec host env desktop shortcutPressed errorText) i rt raw⟩

/-- A `route-open` without a context names a verb that the daemon knows, and is answered with the
code of one that it does not know. -/
theorem known_verb_unknown :
    code? (respond defaultSerde plainHandler 0 Headless.firstDaemon (bareRequest "route-open")).1 =
        some ERROR_UNKNOWN_VERB ∧
      ¬ NamesNoVariant (bareRequest "route-open") ∧
      ¬ MeansUnknownVerb defaultSerde plainHandler 0 Headless.firstDaemon
        (bareRequest "route-open") := by
  have hplain : (Json.obj [("type", .str "route-open"), ("request_id", .str "1")]).Plain :=
    ⟨trivial, trivial, trivial⟩
  have hnames : ¬ NamesNoVariant (bareRequest "route-open") := by
    rintro ⟨entries, htokens, -, hverbs⟩
    have hbody := Json.tokens_toVec (fun _ => true) hplain
    cases htokens.symm.trans hbody
    exact hverbs "route-open" (by simp [verbs]) (by simp)
  have hcode : code? (respond defaultSerde plainHandler 0 Headless.firstDaemon
      (bareRequest "route-open")).1 = some ERROR_UNKNOWN_VERB := by
    have hcodes : LeavesCode plainHandler := daemonHandler_leavesCode _ _ _ _
    rw [respond_unknown_iff hcodes, fromSlice_bareRequest]
    rfl
  exact ⟨hcode, hnames, fun h => hnames (h.mp hcode)⟩

end LinkPilot.UnknownVerb
