import LinkPilot.Daemon
import LinkPilot.Transport

/-!
# Serving a connection

Model of `serve_connection_unix` of `crates/ipc/src/server.rs`: it reads frame after frame, answers
each of them, and ends where the client closes the stream or where a frame cannot be read or
written.

Principal results:

* `onePerRequest_cons` — one frame is answered as the client expects when its response can be sent.
* `onePerRequest_iff` — so are all frames of a connection, and it stays open, exactly then.
* `daemon_answers_iff` — for the daemon: exactly when what each request asks for fits into a frame.
* `history_closes_connection` — a history that does not fit closes the connection without a response.
-/

set_option autoImplicit false

namespace LinkPilot

open Serde

/-- `ERROR_UNKNOWN_VERB`. -/
def ERROR_UNKNOWN_VERB : String := "unknown-verb"

/-- A `RequestHandler` as one connection finds it: what it does with the request of the `i`-th
frame, and the text of the error that `serde_json` has for bytes that are no request. -/
structure Handler (σ : Type) where
  handle : Nat → σ → Request → Response × σ
  errorText : List UInt8 → String

/-- Every response has the id of its request. -/
def Handler.Echoes {σ : Type} (handler : Handler σ) : Prop :=
  ∀ i s request, (handler.handle i s request).1.requestId = request.requestId

section Serve

variable {σ : Type} (serde : SerdeJson) (handler : Handler σ)

/-- The response to the `i`-th frame. -/
def respond (i : Nat) (s : σ) (raw : List UInt8) : Response × σ :=
  match serde.fromSlice Request.fromJson raw with
  | some request => handler.handle i s request
  | none =>
    (.error ((serde.peekRequestId raw).getD "") ERROR_UNKNOWN_VERB
      ("request type not recognised by this daemon: " ++ handler.errorText raw), s)

/-- `serve_connection_unix` on a stream: what it writes, and how it ends. -/
def serveConnection (i : Nat) (s : σ) (stream : List UInt8) :
    List UInt8 × Except TransportError Unit :=
  match _h : readRawFrame stream with
  | .error .closed => ([], .ok ())
  | .error e => ([], .error e)
  | .ok (raw, rest) =>
    match encode (respond serde handler i s raw).1.toJson.toVec with
    | .error e => ([], .error e)
    | .ok bytes =>
      let (written, result) := serveConnection (i + 1) (respond serde handler i s raw).2 rest
      (bytes ++ written, result)
termination_by stream.length
decreasing_by exact length_of_readRawFrame _h

/-- A client that calls `read_frame` until it fails: the responses, and the failure. -/
def readResponses (stream : List UInt8) : List Response × TransportError :=
  match _h : readRawFrame stream with
  | .error e => ([], e)
  | .ok (raw, rest) =>
    match serde.fromSlice Response.fromJson raw with
    | none => ([], .serde "not a response")
    | some response =>
      let (responses, e) := readResponses rest
      (response :: responses, e)
termination_by stream.length
decreasing_by exact length_of_readRawFrame _h

/-- The request id of a frame: of the request, or the one that is recovered, or none. -/
def requestIdOf (raw : List UInt8) : String :=
  match serde.fromSlice Request.fromJson raw with
  | some request => request.requestId
  | none => (serde.peekRequestId raw).getD ""

/-- The connection wrote one response for each frame that a client decodes, in order and with its
request id, and was open until the client closed it. -/
structure OnePerRequest (bodies : List (List UInt8))
    (served : List UInt8 × Except TransportError Unit) : Prop where
  stays : served.2 = .ok ()
  ends : (readResponses serde served.1).2 = .closed
  ids : (readResponses serde served.1).1.map Response.requestId = bodies.map (requestIdOf serde)

/-- A response whose text fits into a frame, and whose nesting the client's reader takes. -/
structure Sendable (response : Response) : Prop where
  length : response.toJson.toVec.length ≤ MAX_FRAME_BYTES
  depth : response.toJson.depth ≤ serde.limit

/-- The frames of a connection, each with its number and the state that it finds. -/
def exchanges : Nat → σ → List (List UInt8) → List (Nat × σ × List UInt8)
  | _, _, [] => []
  | i, s, raw :: bodies => (i, s, raw) :: exchanges (i + 1) (respond serde handler i s raw).2 bodies

variable {serde} {handler}

theorem requestId_respond (hechoes : handler.Echoes) (i : Nat) (s : σ) (raw : List UInt8) :
    (respond serde handler i s raw).1.requestId = requestIdOf serde raw := by
  unfold respond requestIdOf
  split
  · exact hechoes i s _
  · rfl

theorem serveConnection_nil (i : Nat) (s : σ) :
    serveConnection serde handler i s [] = ([], .ok ()) := by
  rw [serveConnection]
  rfl

theorem serveConnection_frame {raw : List UInt8} (h : raw.length ≤ MAX_FRAME_BYTES) (i : Nat)
    (s : σ) (rest : List UInt8) :
    serveConnection serde handler i s (frame raw ++ rest) =
      match encode (respond serde handler i s raw).1.toJson.toVec with
      | .error e => ([], .error e)
      | .ok bytes =>
        (bytes ++ (serveConnection serde handler (i + 1) (respond serde handler i s raw).2 rest).1,
          (serveConnection serde handler (i + 1) (respond serde handler i s raw).2 rest).2) := by
  have hframe := readRawFrame_frame h rest
  rw [serveConnection]
  split
  · rename_i hread
    cases hread.symm.trans hframe
  · rename_i hread
    cases hread.symm.trans hframe
  · rename_i hread
    cases hread.symm.trans hframe
    rfl

theorem readResponses_nil : readResponses serde [] = ([], .closed) := by
  rw [readResponses]
  rfl

theorem readResponses_frame {raw : List UInt8} (h : raw.length ≤ MAX_FRAME_BYTES)
    (rest : List UInt8) :
    readResponses serde (frame raw ++ rest) =
      match serde.fromSlice Response.fromJson raw with
      | none => ([], .serde "not a response")
      | some response =>
        (response :: (readResponses serde rest).1, (readResponses serde rest).2) := by
  have hframe := readRawFrame_frame h rest
  rw [readResponses]
  split
  · rename_i hread
    cases hread.symm.trans hframe
  · rename_i hread
    cases hread.symm.trans hframe
    rfl

/-- **One frame.** Its response is received when it can be sent; the rest of the stream decides
about the rest. -/
theorem onePerRequest_cons (hechoes : handler.Echoes) {raw : List UInt8}
    (h : raw.length ≤ MAX_FRAME_BYTES) (i : Nat) (s : σ) (bodies : List (List UInt8))
    (rest : List UInt8) :
    OnePerRequest serde (raw :: bodies) (serveConnection serde handler i s (frame raw ++ rest)) ↔
      Sendable serde (respond serde handler i s raw).1 ∧
        OnePerRequest serde bodies
          (serveConnection serde handler (i + 1) (respond serde handler i s raw).2 rest) := by
  have hid := @requestId_respond _ serde _ hechoes i s raw
  rw [serveConnection_frame h]
  generalize respond serde handler i s raw = answer at hid ⊢
  obtain ⟨response, s'⟩ := answer
  simp only at hid ⊢
  by_cases hlength : response.toJson.toVec.length ≤ MAX_FRAME_BYTES
  · have hencode : encode response.toJson.toVec = .ok (frame response.toJson.toVec) :=
      if_neg (Nat.not_lt.mpr hlength)
    have hslice := @SerdeJson.fromSlice_toVec serde _ Response.fromJson _ response.plain_toJson
    simp only [hencode]
    by_cases hdepth : response.toJson.depth ≤ serde.limit
    · rw [if_pos hdepth, response.fromJson_toJson] at hslice
      have hread := @readResponses_frame serde _ hlength
        (serveConnection serde handler (i + 1) s' rest).1
      rw [hslice] at hread
      constructor
      · rintro ⟨hstays, hends, hids⟩
        rw [hread] at hends hids
        exact ⟨⟨hlength, hdepth⟩, hstays, hends, (List.cons.inj hids).2⟩
      · rintro ⟨-, hstays, hends, hids⟩
        refine ⟨hstays, by rw [hread]; exact hends, ?_⟩
        rw [hread]
        simp only [List.map_cons, hids, response.requestId_wrap, hid]
    · rw [if_neg hdepth] at hslice
      have hread := @readResponses_frame serde _ hlength
        (serveConnection serde handler (i + 1) s' rest).1
      rw [hslice] at hread
      constructor
      · rintro ⟨-, hends, -⟩
        rw [hread] at hends
        cases hends
      · rintro ⟨hsend, -⟩
        exact absurd hsend.depth hdepth
  · have hencode : encode response.toJson.toVec =
        .error (.frameTooLarge response.toJson.toVec.length) := if_pos (Nat.not_le.mp hlength)
    simp only [hencode]
    constructor
    · rintro ⟨hstays, -, -⟩
      cases hstays
    · rintro ⟨hsend, -⟩
      exact absurd hsend.length hlength

/-- **A connection.** Each of its frames is answered, and it stays open, exactly when every response
can be sent. -/
theorem onePerRequest_iff (hechoes : handler.Echoes) {bodies : List (List UInt8)}
    (h : ∀ raw ∈ bodies, raw.length ≤ MAX_FRAME_BYTES) (i : Nat) (s : σ) :
    OnePerRequest serde bodies (serveConnection serde handler i s (bodies.flatMap frame)) ↔
      ∀ e ∈ exchanges serde handler i s bodies,
        Sendable serde (respond serde handler e.1 e.2.1 e.2.2).1 := by
  induction bodies generalizing i s with
  | nil =>
    refine ⟨fun _ e he => (nomatch he), fun _ => ?_⟩
    rw [List.flatMap_nil, serveConnection_nil]
    exact ⟨rfl, by rw [readResponses_nil], by rw [readResponses_nil]; rfl⟩
  | cons raw bodies ih =>
    obtain ⟨hraw, hbodies⟩ := List.forall_mem_cons.mp h
    rw [List.flatMap_cons, onePerRequest_cons hechoes hraw, ih hbodies]
    simp only [exchanges, List.forall_mem_cons]

end Serve

/-! ## The daemon -/

section Daemon

variable {Text : Type}

/-- Time, fresh token and failure of the `i`-th request, and what all others have made of the
daemon's state before it. -/
structure RequestEnv (Text : Type) where
  now : Nat
  token : Uuid
  fault : Option Fault
  others : DaemonRuntime Text → DaemonRuntime Text

/-- `DaemonRuntime` as the handler of a connection. -/
def daemonHandler (codec : Codec Text) (host : Host) (env : Nat → RequestEnv Text)
    (errorText : List UInt8 → String) : Handler (DaemonRuntime Text) where
  handle i rt request :=
    let (response, rt, _) :=
      ((env i).others rt).handle codec host (env i).now (env i).token (env i).fault request
    (response, rt)
  errorText := errorText

theorem requestId_openDecision (host : Host) (requestId rawUrl : String)
    (decision : RoutingDecision) :
    (openDecision host requestId rawUrl decision).1.requestId = requestId := by
  unfold openDecision
  split
  · split
    · rfl
    · split <;> rfl
  · rfl
  · rfl
  · rfl

/-- The answer to a `ConfigReplace` depends on the write alone. -/
theorem handle_configReplace (codec : Codec Text) (host : Host) (rt : DaemonRuntime Text)
    (now : Nat) (token : Uuid) (fault : Option Fault) (requestId : String) (doc : ConfigDocument)
    (writer : WriterId) :
    (rt.handle codec host now token fault (.configReplace requestId doc writer)).1 =
      match fault with
      | none => .ack requestId
      | some f => .error requestId "config-replace" (host.configErrorText f.error) := by
  unfold DaemonRuntime.handle ConfigStore.replace
  cases fault with
  | none => rfl
  | some f =>
    simp only [ConfigStore.persist_fault]

theorem daemonHandler_echoes (codec : Codec Text) (host : Host) (env : Nat → RequestEnv Text)
    (errorText : List UInt8 → String) : (daemonHandler codec host env errorText).Echoes := by
  intro i rt request
  cases request with
  | routeOpen requestId context => exact requestId_openDecision host requestId context.url _
  | configReplace requestId doc writer =>
    simp only [daemonHandler, handle_configReplace]
    cases (env i).fault <;> rfl
  | _ => rfl

/-- What the request asks for, together with its id, fits into a frame and is nested no deeper than
the client's reader goes: the decision, the stored document, the newest records of the history. -/
def RequestFits (serde : SerdeJson) (host : Host) (fault : Option Fault) (rt : DaemonRuntime Text) :
    Request → Prop
  | .routeEvaluate requestId context =>
    Sendable serde
      (.routeDecision requestId (evaluate host.urlParse rt.config.document context))
  | .routeOpen requestId context =>
    Sendable serde (openDecision host requestId context.url
      (evaluate host.urlParse rt.config.document context)).1
  | .configGet requestId => Sendable serde (.configSnapshot requestId rt.config.document)
  | .configReplace requestId _ _ =>
    match fault with
    | none => Sendable serde (.ack requestId)
    | some f => Sendable serde (.error requestId "config-replace" (host.configErrorText f.error))
  | .doctor requestId => Sendable serde (.doctorReport requestId (rt.doctorReport host))
  | .statePing requestId => Sendable serde (.pong requestId rt.version)
  | .routeHistory requestId limit =>
    Sendable serde (.routeHistorySnapshot requestId (rt.history.recent (limit.getD 100)))

/-- So it is for the frame's request, or for the error that echoes the frame's id. -/
def FrameFits (serde : SerdeJson) (host : Host) (env : Nat → RequestEnv Text)
    (errorText : List UInt8 → String) (i : Nat) (rt : DaemonRuntime Text) (raw : List UInt8) :
    Prop :=
  match serde.fromSlice Request.fromJson raw with
  | some request => RequestFits serde host (env i).fault ((env i).others rt) request
  | none =>
    Sendable serde (.error ((serde.peekRequestId raw).getD "") ERROR_UNKNOWN_VERB
      ("request type not recognised by this daemon: " ++ errorText raw))

theorem sendable_handle_iff {serde : SerdeJson} {codec : Codec Text} {host : Host}
    {rt : DaemonRuntime Text} {now : Nat} {token : Uuid} {fault : Option Fault} {request : Request} :
    Sendable serde (rt.handle codec host now token fault request).1 ↔
      RequestFits serde host fault rt request := by
  cases request with
  | configReplace requestId doc writer =>
    rw [handle_configReplace]
    cases fault <;> exact Iff.rfl
  | _ => exact Iff.rfl

theorem sendable_respond_iff {serde : SerdeJson} {codec : Codec Text} {host : Host}
    {env : Nat → RequestEnv Text} {errorText : List UInt8 → String} {i : Nat}
    {rt : DaemonRuntime Text} {raw : List UInt8} :
    Sendable serde (respond serde (daemonHandler codec host env errorText) i rt raw).1 ↔
      FrameFits serde host env errorText i rt raw := by
  unfold respond FrameFits
  split
  · exact sendable_handle_iff
  · exact Iff.rfl

/-- **One response per request.** The daemon answers each frame of a connection with one response
that the client decodes, in order and with the id of its request, and keeps the connection open,
exactly when what each request asks for fits into a frame. -/
theorem daemon_answers_iff {serde : SerdeJson} {codec : Codec Text} {host : Host}
    {env : Nat → RequestEnv Text} {errorText : List UInt8 → String} {bodies : List (List UInt8)}
    (h : ∀ raw ∈ bodies, raw.length ≤ MAX_FRAME_BYTES) (rt : DaemonRuntime Text) :
    OnePerRequest serde bodies
        (serveConnection serde (daemonHandler codec host env errorText) 0 rt
          (bodies.flatMap frame)) ↔
      ∀ e ∈ exchanges serde (daemonHandler codec host env errorText) 0 rt bodies,
        FrameFits serde host env errorText e.1 e.2.1 e.2.2 := by
  rw [onePerRequest_iff (daemonHandler_echoes codec host env errorText) h]
  exact forall_congr' fun e => forall_congr' fun _ => sendable_respond_iff

end Daemon

/-! ## Two connections -/

/-- The reader of `serde_json`, with the nesting that it takes by default. -/
def defaultSerde : SerdeJson := ⟨127, fun _ => true⟩

def quietRequestEnv : RequestEnv FileText := ⟨0, 0#128, none, id⟩

def plainHandler : Handler (DaemonRuntime FileText) :=
  daemonHandler fileCodec Headless.bareHost (fun _ => quietRequestEnv) fun _ => "expected value"

/-- The text of a request without further fields. -/
def bareRequest (type : String) : List UInt8 :=
  (Json.obj [("type", .str type), ("request_id", .str "1")]).toVec

theorem fromSlice_bareRequest {α : Type} (dec : Json → Option α) (type : String) :
    defaultSerde.fromSlice dec (bareRequest type) =
      dec (.obj [("type", .str type), ("request_id", .str "1")]) := by
  have hplain : (Json.obj [("type", .str type), ("request_id", .str "1")]).Plain :=
    ⟨trivial, trivial, trivial⟩
  have hdepth : (Json.obj [("type", .str type), ("request_id", .str "1")]).depth ≤ 127 := by
    simp [Json.depth, Json.depthEntries]
  unfold bareRequest
  rw [SerdeJson.fromSlice_toVec hplain]
  exact if_pos hdepth

theorem peekRequestId_bareRequest (type : String) :
    defaultSerde.peekRequestId (bareRequest type) = some "1" := by
  unfold SerdeJson.peekRequestId
  rw [fromSlice_bareRequest]
  rfl

/-- A frame that is no request, a ping and a request for a report. -/
def threeBodies : List (List UInt8) :=
  [bareRequest "state-dump", bareRequest "state-ping", bareRequest "doctor"]

theorem daemon_answers_threeBodies :
    OnePerRequest defaultSerde threeBodies
      (serveConnection defaultSerde plainHandler 0 Headless.firstDaemon
        (threeBodies.flatMap frame)) := by
  have hlength : ∀ raw ∈ threeBodies, raw.length ≤ MAX_FRAME_BYTES := by decide +kernel
  have hdump : defaultSerde.fromSlice Request.fromJson (bareRequest "state-dump") = none := by
    rw [fromSlice_bareRequest]
    rfl
  have hping : defaultSerde.fromSlice Request.fromJson (bareRequest "state-ping") =
      some (.statePing "1") := by
    rw [fromSlice_bareRequest]
    rfl
  have hdoctor : defaultSerde.fromSlice Request.fromJson (bareRequest "doctor") =
      some (.doctor "1") := by
    rw [fromSlice_bareRequest]
    rfl
  refine (daemon_answers_iff hlength Headless.firstDaemon).mpr ?_
  -- neither of the first two changes the runtime
  have hafterDump (i : Nat) : (respond defaultSerde plainHandler i Headless.firstDaemon
      (bareRequest "state-dump")).2 = Headless.firstDaemon := by
    simp only [respond, hdump]
  have hafterPing (i : Nat) : (respond defaultSerde plainHandler i Headless.firstDaemon
      (bareRequest "state-ping")).2 = Headless.firstDaemon := by
    simp only [respond, hping]
    rfl
  unfold plainHandler at hafterDump hafterPing
  simp only [threeBodies, exchanges, hafterDump, hafterPing, List.forall_mem_cons]
  refine ⟨?_, ?_, ?_, by simp⟩
  · simp only [FrameFits, hdump, peekRequestId_bareRequest]
    exact ⟨by decide +kernel, by decide +kernel⟩
  · simp only [FrameFits, hping]
    exact ⟨by decide +kernel, by decide +kernel⟩
  · simp only [FrameFits, hdoctor]
    exact ⟨by decide +kernel, by decide +kernel⟩

/-- A context with a URL of `n` characters. -/
def longUrl (n : Nat) : RoutingContext :=
  ⟨.ofList (List.replicate n 'a'), ⟨.cli, none, none, none, none⟩, none, none⟩

def longRecord (n : Nat) : RouteRecord :=
  .withExplanation 0 (longUrl n) (.block "matched rule") none

/-- The daemon after two `RouteOpen`s of such a URL. -/
def loggedDaemon (n : Nat) : DaemonRuntime FileText :=
  { Headless.firstDaemon with history := ⟨DEFAULT_CAPACITY, [longRecord n, longRecord n]⟩ }

theorem length_longRecord (n : Nat) : n ≤ (longRecord n).toJson.render.length := by
  have hurl : n ≤ (Json.str (longUrl n).url).render.length := by
    have hlength := Json.length_le_renderString (longUrl n).url
    have hchars : (longUrl n).url.toList = List.replicate n 'a' := String.toList_ofList
    rw [hchars, List.length_replicate] at hlength
    exact hlength
  have hcontext : (Json.str (longUrl n).url).render.length ≤ (longUrl n).toJson.render.length :=
    Json.length_render_entry (List.mem_cons_self : ("url", Json.str (longUrl n).url) ∈ _)
  have hrecord : (longUrl n).toJson.render.length ≤ (longRecord n).toJson.render.length :=
    Json.length_render_entry
      (List.mem_cons_of_mem _ List.mem_cons_self : ("context", (longUrl n).toJson) ∈ _)
  omega

/-- Two such records are too long for a frame. -/
theorem length_longSnapshot {n : Nat} (h : MAX_FRAME_BYTES < 2 * n) (requestId : String) :
    MAX_FRAME_BYTES < (Response.routeHistorySnapshot requestId
      [longRecord n, longRecord n]).toJson.toVec.length := by
  have hrecords : 2 * (longRecord n).toJson.render.length ≤
      (Json.arr [(longRecord n).toJson, (longRecord n).toJson]).render.length := by
    simp only [Json.render, Json.renderElems, List.length_cons, List.length_append]
    omega
  have hresponse : (Json.arr [(longRecord n).toJson, (longRecord n).toJson]).render.length ≤
      (Response.routeHistorySnapshot requestId
        [longRecord n, longRecord n]).toJson.render.length :=
    Json.length_render_entry (List.mem_cons_of_mem _ (List.mem_cons_of_mem _ List.mem_cons_self) :
      ("records", Json.arr [(longRecord n).toJson, (longRecord n).toJson]) ∈ _)
  have hbytes := Json.length_render_le_toVec
    (Response.routeHistorySnapshot requestId [longRecord n, longRecord n]).toJson
  have := length_longRecord n
  omega

/-- A `RouteHistory` of that daemon is served by closing the connection. -/
theorem serve_loggedDaemon {n : Nat} (h : MAX_FRAME_BYTES < 2 * n) :
    ∃ bytes, serveConnection defaultSerde plainHandler 0 (loggedDaemon n)
      ([bareRequest "route-history"].flatMap frame) = ([], .error (.frameTooLarge bytes)) := by
  have hlength : (bareRequest "route-history").length ≤ MAX_FRAME_BYTES := by decide +kernel
  have hrequest : defaultSerde.fromSlice Request.fromJson (bareRequest "route-history") =
      some (.routeHistory "1" none) := fromSlice_bareRequest _ "route-history"
  have hresponse : (respond defaultSerde plainHandler 0 (loggedDaemon n)
      (bareRequest "route-history")).1 =
        .routeHistorySnapshot "1" [longRecord n, longRecord n] := by
    unfold respond
    rw [hrequest]
    rfl
  rw [List.flatMap_cons, serveConnection_frame hlength, hresponse]
  unfold encode
  rw [if_pos (length_longSnapshot h "1")]
  exact ⟨_, rfl⟩

/-- `lpt history` after two URLs of 3 MiB: the response fits into no frame, none is written, and the
connection is closed. -/
theorem history_closes_connection :
    (bareRequest "route-history").length ≤ MAX_FRAME_BYTES ∧
      (∃ bytes, serveConnection defaultSerde plainHandler 0 (loggedDaemon 3145728)
        ([bareRequest "route-history"].flatMap frame) = ([], .error (.frameTooLarge bytes))) ∧
      ¬ OnePerRequest defaultSerde [bareRequest "route-history"]
        (serveConnection defaultSerde plainHandler 0 (loggedDaemon 3145728)
          ([bareRequest "route-history"].flatMap frame)) := by
  obtain ⟨bytes, hserved⟩ := @serve_loggedDaemon 3145728 (by decide)
  refine ⟨by decide +kernel, ⟨bytes, hserved⟩, fun hone => ?_⟩
  have hstays := hone.stays
  rw [hserved] at hstays
  cases hstays

end LinkPilot
