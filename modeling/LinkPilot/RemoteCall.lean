import LinkPilot.Framing

/-!
# One call over the socket

Model of `crates/ipc/src/client.rs` (`send`) against a connection that `serve_connection_unix` of
`crates/ipc/src/server.rs` answers, both ends reading their streams in any chunks.

Principal results:

* `Request.fromJson_toJson` — a request is decoded as what was sent.
* `serveChunks_serveConnection` — the server's chunks do not matter.
* `send_refines_remoteCall` — however a call over the socket breaks off, it is one call of the
  handler, or none, and a response that the client returns is the one of that call.
-/

set_option autoImplicit false

namespace LinkPilot

open Serde ChunkedRead

/-! ## Requests as JSON -/

namespace Request

/-- `Request` as JSON. -/
def toJson : Request → Json
  | .routeEvaluate requestId context =>
    .obj [("type", .str "route-evaluate"), ("request_id", .str requestId),
      ("context", context.toJson)]
  | .routeOpen requestId context =>
    .obj [("type", .str "route-open"), ("request_id", .str requestId), ("context", context.toJson)]
  | .configGet requestId => .obj [("type", .str "config-get"), ("request_id", .str requestId)]
  | .configReplace requestId doc writer => configReplaceFrame requestId doc.toJson writer
  | .doctor requestId => .obj [("type", .str "doctor"), ("request_id", .str requestId)]
  | .statePing requestId => .obj [("type", .str "state-ping"), ("request_id", .str requestId)]
  | .routeHistory requestId limit =>
    .obj [("type", .str "route-history"), ("request_id", .str requestId),
      ("limit", .ofOption u64Json limit)]

/-- The request with its limit as the 64-bit number that it is. -/
def wrap : Request → Request
  | .routeHistory requestId limit =>
    .routeHistory requestId (limit.map (· % 18446744073709551616))
  | r => r

theorem requestId_wrap (r : Request) : r.wrap.requestId = r.requestId := by
  cases r <;> rfl

theorem option_u64Json (o : Option Nat) :
    Json.option u64 (.ofOption u64Json o) = some (o.map (· % 18446744073709551616)) := by
  cases o with
  | none => rfl
  | some n =>
    show (u64 (u64Json n)).map some = _
    rw [u64_u64Json]
    rfl

/-- **Round trip.** A request is decoded as what was sent. -/
theorem fromJson_toJson (r : Request) : fromJson r.toJson = some r.wrap := by
  cases r with
  | routeEvaluate requestId context =>
    exact Fields.required_bind rfl context.fromJson_toJson rfl
  | routeOpen requestId context =>
    exact Fields.required_bind rfl context.fromJson_toJson rfl
  | configReplace requestId doc writer =>
    show configReplaceFromJson (configReplaceFrame requestId doc.toJson writer) = _
    simp [configReplaceFromJson, configReplaceFrame, Json.tagged, Fields.read, Fields.required,
      Fields.get, Json.string, doc.fromJson_toJson, WriterId.read_names, wrap]
  | routeHistory requestId limit =>
    exact Fields.defaulted_bind rfl (option_u64Json limit) rfl
  | _ => rfl

theorem plain_toJson (r : Request) : r.toJson.Plain := by
  cases r with
  | configReplace requestId doc writer =>
    exact ⟨trivial, trivial, doc.plain_toJson, trivial, trivial⟩
  | routeHistory requestId limit =>
    exact ⟨trivial, trivial, plain_ofOption plain_u64Json limit, trivial⟩
  | _ => simp [toJson, Json.Plain, Json.PlainEntries, RoutingContext.plain_toJson]

end Request

/-! ## The client -/

/-- `Endpoint`. -/
inductive Endpoint where
  | unixSocket (path : String)
  | namedPipe (name : String)
  deriving DecidableEq, Repr

/-- A connection as its client finds it: how the write of the given bytes ends, and the stream that
comes back, closed behind its chunks or failing there. -/
structure Connection where
  write : List UInt8 → Except String Unit
  reply : List (Chunk UInt8)
  fault : Option String

/-- A path: whether something exists there, and what a connection to it comes to. -/
structure SocketPath where
  present : Bool
  connect : Except String Connection

section Client

variable (serde : SerdeJson) (errorText : List UInt8 → String)

/-- `serde_json` for the responses that the client reads. -/
def clientCodec : MessageCodec Response where
  toVec r := .ok r.toJson.toVec
  fromSlice bytes :=
    match serde.fromSlice Response.fromJson bytes with
    | some r => .ok r
    | none => .error (errorText bytes)

/-- `write_frame`, then `read_frame`. -/
def exchange (connection : Connection) (request : Request) : Except TransportError Response :=
  match encode request.toJson.toVec with
  | .error e => .error e
  | .ok bytes =>
    match connection.write bytes with
    | .error e => .error (.io e)
    | .ok () => (readFrame (clientCodec serde errorText) connection.fault connection.reply).result

/-- `send_async`. -/
def sendAsync (files : String → SocketPath) (endpoint : Endpoint) (request : Request) :
    Except ClientError Response :=
  match endpoint with
  | .namedPipe _ => .error .unsupportedEndpoint
  | .unixSocket path =>
    if (files path).present then
      match (files path).connect with
      | .error e => .error (.offline e)
      | .ok connection => (exchange serde errorText connection request).mapError .transport
    else .error (.offline ("no socket at " ++ path))

/-- `send`; `inTime` says whether the call is done within `DEFAULT_TIMEOUT`. -/
def send (files : String → SocketPath) (endpoint : Endpoint) (inTime : Bool) (request : Request) :
    Except ClientError Response :=
  if inTime then sendAsync serde errorText files endpoint request
  else .error (.timeout DEFAULT_TIMEOUT)

end Client

/-! ## The server on chunks -/

/-- However a stream ends, its bytes decide whether a frame is read, and which. -/
theorem readRawFrameFrom_cases (fault : Option String) (chunks : List (Chunk UInt8)) :
    (∃ raw rest, readRawFrame (pending chunks) = .ok (raw, rest) ∧
      (readRawFrameFrom fault chunks).result = .ok raw ∧
      pending (readRawFrameFrom fault chunks).rest = rest) ∨
    ∃ e e', readRawFrame (pending chunks) = .error e ∧
      (readRawFrameFrom fault chunks).result = .error e' := by
  by_cases hheader : 4 ≤ (pending chunks).length
  · obtain ⟨afterHeader, hread, hpending⟩ := readExact_ok fault hheader
    obtain ⟨a, b, c, d, bytes, hbytes⟩ := exists_header hheader
    rw [hbytes] at hread hpending
    simp at hread hpending
    simp only [readRawFrameFrom, hread, hbytes, readRawFrame, beLength_four]
    by_cases hmax : MAX_FRAME_BYTES < fromBeBytes a b c d
    · simp [hmax]
    · by_cases hlen : bytes.length < fromBeBytes a b c d
      · have hshort := readExact_error fault (hpending ▸ hlen)
        cases fault <;> simp [hmax, hlen, hshort, ending]
      · have hfits : fromBeBytes a b c d ≤ (pending afterHeader).length := by
          rw [hpending]
          omega
        obtain ⟨rest, hbody, hrest⟩ := readExact_ok fault hfits
        rw [hpending] at hbody hrest
        simp [hmax, hlen, hbody, hrest]
  · have hshort := readExact_error fault (Nat.lt_of_not_le hheader)
    have hclosed := readRawFrame_short (Nat.lt_of_not_le hheader)
    cases fault <;> simp [readRawFrameFrom, hshort, hclosed, ending]

/-- A connection that was served: what was written, how it ended, the state that is left, and the
requests that the handler was given. -/
structure Served (σ : Type) where
  written : List UInt8
  result : Except TransportError Unit
  state : σ
  handled : List Request

section Serve

variable {σ : Type} (serde : SerdeJson) (handler : Handler σ) (fault : Option String)

theorem length_readRawFrameFrom {chunks : List (Chunk UInt8)} {raw : List UInt8}
    (h : (readRawFrameFrom fault chunks).result = .ok raw) :
    (pending (readRawFrameFrom fault chunks).rest).length < (pending chunks).length := by
  rcases readRawFrameFrom_cases fault chunks with ⟨raw', rest, hread, -, hrest⟩ | ⟨e, e', -, herror⟩
  · rw [hrest]
    exact length_of_readRawFrame hread
  · cases h.symm.trans herror

/-- `serve_connection_unix` on a stream that is closed behind its chunks or fails there. -/
def serveChunks (i : Nat) (s : σ) (chunks : List (Chunk UInt8)) : Served σ :=
  match _h : (readRawFrameFrom fault chunks).result with
  | .error .closed => ⟨[], .ok (), s, []⟩
  | .error e => ⟨[], .error e, s, []⟩
  | .ok raw =>
    let handled := (serde.fromSlice Request.fromJson raw).toList
    let answer := respond serde handler i s raw
    match encode answer.1.toJson.toVec with
    | .error e => ⟨[], .error e, answer.2, handled⟩
    | .ok bytes =>
      let served := serveChunks (i + 1) answer.2 (readRawFrameFrom fault chunks).rest
      ⟨bytes ++ served.written, served.result, served.state, handled ++ served.handled⟩
termination_by (pending chunks).length
decreasing_by exact length_readRawFrameFrom fault _h

variable {serde} {handler} {fault}

theorem serveChunks_of_error {chunks : List (Chunk UInt8)} {e : TransportError}
    (h : (readRawFrameFrom fault chunks).result = .error e) (i : Nat) (s : σ) :
    serveChunks serde handler fault i s chunks =
      ⟨[], if e = .closed then .ok () else .error e, s, []⟩ := by
  rw [serveChunks]
  split
  · rename_i hread
    cases hread.symm.trans h
    rfl
  · rename_i e' hne hread
    cases hread.symm.trans h
    rw [if_neg hne]
  · rename_i hread
    cases hread.symm.trans h

/-- The server stops where no frame is read. -/
theorem serveChunks_error {chunks : List (Chunk UInt8)} {e : TransportError}
    (h : readRawFrame (pending chunks) = .error e) (i : Nat) (s : σ) :
    ∃ result, serveChunks serde handler fault i s chunks = ⟨[], result, s, []⟩ := by
  rcases readRawFrameFrom_cases fault chunks with ⟨raw, rest, hread, -, -⟩ | ⟨e', e'', -, herror⟩
  · cases hread.symm.trans h
  · exact ⟨_, serveChunks_of_error herror i s⟩

/-- A frame is answered, and then what is left of the stream. -/
theorem serveChunks_ok {chunks : List (Chunk UInt8)} {raw rest : List UInt8}
    (h : readRawFrame (pending chunks) = .ok (raw, rest)) (i : Nat) (s : σ) :
    ∃ chunks', pending chunks' = rest ∧
      serveChunks serde handler fault i s chunks =
        match encode (respond serde handler i s raw).1.toJson.toVec with
        | .error e =>
          ⟨[], .error e, (respond serde handler i s raw).2,
            (serde.fromSlice Request.fromJson raw).toList⟩
        | .ok bytes =>
          let served :=
            serveChunks serde handler fault (i + 1) (respond serde handler i s raw).2 chunks'
          ⟨bytes ++ served.written, served.result, served.state,
            (serde.fromSlice Request.fromJson raw).toList ++ served.handled⟩ := by
  rcases readRawFrameFrom_cases fault chunks with ⟨raw', rest', hread, hresult, hrest⟩ |
    ⟨e, e', hread, -⟩
  · cases hread.symm.trans h
    refine ⟨(readRawFrameFrom fault chunks).rest, hrest, ?_⟩
    rw [serveChunks]
    split
    · rename_i hread
      cases hread.symm.trans hresult
    · rename_i hread
      cases hread.symm.trans hresult
    · rename_i hread
      cases hread.symm.trans hresult
      rfl
  · cases hread.symm.trans h

theorem serveConnection_error {stream : List UInt8} {e : TransportError}
    (h : readRawFrame stream = .error e) (i : Nat) (s : σ) :
    serveConnection serde handler i s stream =
      ([], if e = .closed then .ok () else .error e) := by
  rw [serveConnection]
  split
  · rename_i hread
    cases hread.symm.trans h
    rfl
  · rename_i e' hne hread
    cases hread.symm.trans h
    rw [if_neg hne]
  · rename_i hread
    cases hread.symm.trans h

theorem serveConnection_ok {stream raw rest : List UInt8}
    (h : readRawFrame stream = .ok (raw, rest)) (i : Nat) (s : σ) :
    serveConnection serde handler i s stream =
      match encode (respond serde handler i s raw).1.toJson.toVec with
      | .error e => ([], .error e)
      | .ok bytes =>
        let served := serveConnection serde handler (i + 1) (respond serde handler i s raw).2 rest
        (bytes ++ served.1, served.2) := by
  rw [serveConnection]
  split
  · rename_i hread
    cases hread.symm.trans h
  · rename_i hread
    cases hread.symm.trans h
  · rename_i hread
    cases hread.symm.trans h
    rfl

/-- What the server writes to a closed stream in chunks, and how it ends, depends on the bytes
alone. -/
theorem serveChunks_serveConnection (i : Nat) (s : σ) (chunks : List (Chunk UInt8)) :
    ((serveChunks serde handler none i s chunks).written,
        (serveChunks serde handler none i s chunks).result) =
      serveConnection serde handler i s (pending chunks) := by
  induction hlength : (pending chunks).length using Nat.strong_induction_on
    generalizing i s chunks with
  | _ n ih =>
    subst hlength
    cases hread : readRawFrame (pending chunks) with
    | error e =>
      have hresult : (readRawFrameFrom none chunks).result = .error e := by
        rw [(readRawFrameFrom_closed chunks).1, hread]
        rfl
      rw [serveChunks_of_error hresult, serveConnection_error hread]
    | ok r =>
      obtain ⟨raw, rest⟩ := r
      obtain ⟨chunks', hrest, hserve⟩ := @serveChunks_ok _ serde handler none _ _ _ hread i s
      have hshorter : (pending chunks').length < (pending chunks).length := by
        rw [hrest]
        exact length_of_readRawFrame hread
      have hnext := ih _ hshorter (i + 1) (respond serde handler i s raw).2 chunks' rfl
      rw [hserve, serveConnection_ok hread, ← hrest, ← hnext]
      cases encode (respond serde handler i s raw).1.toJson.toVec <;> rfl

end Serve

/-! ## The call -/

section Call

variable {σ : Type} (serde : SerdeJson) (errorText : List UInt8 → String) (handler : Handler σ)

/-- What the client makes of a response: one that is too long closes the connection, one that is
nested too deep is not read. -/
def receive (response : Response) : Except TransportError Response :=
  if MAX_FRAME_BYTES < response.toJson.toVec.length then .error .closed
  else if response.toJson.depth ≤ serde.limit then .ok response.wrap
  else .error (.serde (errorText response.toJson.toVec))

/-- **The call that the socket stands for.** A request that is too long does not leave the client.
One that is nested too deep is answered as an unknown verb, without its id.  Any other is given to
the handler, once. -/
def remoteCall (s : σ) (request : Request) : Except TransportError Response × σ × List Request :=
  let json := request.toJson.toVec
  if MAX_FRAME_BYTES < json.length then (.error (.frameTooLarge json.length), s, [])
  else if request.toJson.depth ≤ serde.limit then
    let answer := handler.handle 0 s request.wrap
    (receive serde errorText answer.1, answer.2, [request.wrap])
  else
    (receive serde errorText (.error "" ERROR_UNKNOWN_VERB
      ("request type not recognised by this daemon: " ++ handler.errorText json)), s, [])

/-- What the client has written when its call is over. -/
def sentBytes (request : Request) : List UInt8 :=
  match encode request.toJson.toVec with
  | .error _ => []
  | .ok bytes => bytes

/-- What the daemon writes when a response is its only one. -/
def answerBytes (response : Response) : List UInt8 :=
  match encode response.toJson.toVec with
  | .error _ => []
  | .ok bytes => bytes

variable {serde} {errorText} {handler} {fault : Option String}

/-- What is answered to the text of a request. -/
theorem respond_toVec (i : Nat) (s : σ) (request : Request) :
    respond serde handler i s request.toJson.toVec =
      if request.toJson.depth ≤ serde.limit then handler.handle i s request.wrap
      else (.error "" ERROR_UNKNOWN_VERB ("request type not recognised by this daemon: " ++
        handler.errorText request.toJson.toVec), s) := by
  unfold respond SerdeJson.peekRequestId
  simp only [SerdeJson.fromSlice_toVec request.plain_toJson]
  by_cases hdepth : request.toJson.depth ≤ serde.limit
  · simp only [if_pos hdepth, request.fromJson_toJson]
  · simp only [if_neg hdepth, Option.bind_none, Option.getD_none]

/-- `serde_json` left out: a message is its text. -/
def textCodec : MessageCodec (List UInt8) := ⟨.ok, .ok⟩

/-- No part of a frame is read as one. -/
theorem readRawFrame_cut {json : List UInt8} {chunks : List (Chunk UInt8)}
    (hmax : json.length ≤ MAX_FRAME_BYTES) (hstarts : pending chunks <+: frame json)
    (hne : pending chunks ≠ frame json) : ∃ e, readRawFrame (pending chunks) = .error e := by
  have hencode : textCodec.encode json = .ok (frame json) :=
    encode_eq_ok.mpr ⟨json, rfl, hmax, rfl⟩
  have hcut := readFrame_cut hencode hstarts hne rfl
  cases hread : readRawFrame (pending chunks) with
  | error e => exact ⟨e, rfl⟩
  | ok r =>
    simp only [readFrame, (readRawFrameFrom_closed chunks).1, hread] at hcut
    cases hcut

/-- A client that reads no frame has no response. -/
theorem readFrame_error {T : Type} {codec : MessageCodec T} {chunks : List (Chunk UInt8)}
    {e : TransportError} (h : readRawFrame (pending chunks) = .error e) :
    ∃ e', (readFrame codec fault chunks).result = .error e' := by
  rcases readRawFrameFrom_cases fault chunks with ⟨raw, rest, hread, -, -⟩ | ⟨e', e'', -, herror⟩
  · cases hread.symm.trans h
  · exact ⟨e'', by simp only [readFrame, herror, Except.bind]⟩

/-- What the client reads from the frame of an answer. -/
theorem readFrame_receive {response : Response} {chunks : List (Chunk UInt8)}
    (hmax : response.toJson.toVec.length ≤ MAX_FRAME_BYTES)
    (hreply : pending chunks = frame response.toJson.toVec) :
    (readFrame (clientCodec serde errorText) fault chunks).result =
      receive serde errorText response := by
  have hframe : readRawFrame (pending chunks) = .ok (response.toJson.toVec, []) := by
    rw [hreply, ← List.append_nil (frame _)]
    exact readRawFrame_frame hmax []
  rcases readRawFrameFrom_cases fault chunks with ⟨raw, rest, hread, hresult, -⟩ | ⟨e, e', hread, -⟩
  · cases hread.symm.trans hframe
    simp only [readFrame, hresult, Except.bind, MessageCodec.decode, clientCodec, receive,
      if_neg (Nat.not_lt.mpr hmax), SerdeJson.fromSlice_toVec response.plain_toJson]
    by_cases hdepth : response.toJson.depth ≤ serde.limit
    · simp only [if_pos hdepth, response.fromJson_toJson]
    · simp only [if_neg hdepth]
  · cases hread.symm.trans hframe

/-- A response that the client has is the whole answer of the daemon. -/
theorem receive_of_ok {response got : Response} {chunks : List (Chunk UInt8)}
    (hstarts : pending chunks <+: answerBytes response)
    (hgot : (readFrame (clientCodec serde errorText) fault chunks).result = .ok got) :
    receive serde errorText response = .ok got := by
  have hread : ∀ e, readRawFrame (pending chunks) ≠ .error e := by
    intro e herror
    obtain ⟨e', he'⟩ := @readFrame_error fault _ (clientCodec serde errorText) _ _ herror
    cases hgot.symm.trans he'
  by_cases hmax : MAX_FRAME_BYTES < response.toJson.toVec.length
  · rw [answerBytes, encode, if_pos hmax] at hstarts
    rw [List.prefix_nil.mp hstarts] at hread
    exact absurd rfl (hread .closed)
  · have hle := Nat.le_of_not_lt hmax
    rw [answerBytes, encode, if_neg hmax] at hstarts
    by_cases hwhole : pending chunks = frame response.toJson.toVec
    · rw [← hgot, readFrame_receive hle hwhole]
    · obtain ⟨e, he⟩ := readRawFrame_cut hle hstarts hwhole
      exact absurd he (hread e)

/-- What the client reads from the bytes of one answer. -/
theorem readFrame_answer {response : Response} {chunks : List (Chunk UInt8)}
    (hreply : pending chunks = answerBytes response) :
    (readFrame (clientCodec serde errorText) none chunks).result =
      receive serde errorText response := by
  by_cases hmax : MAX_FRAME_BYTES < response.toJson.toVec.length
  · rw [answerBytes, encode, if_pos hmax] at hreply
    rw [receive, if_pos hmax]
    exact readFrame_closed (by simp [hreply])
  · rw [answerBytes, encode, if_neg hmax] at hreply
    exact readFrame_receive (Nat.le_of_not_lt hmax) hreply

/-- The daemon's side of a call that has left the client. -/
theorem serveChunks_frame {request : Request} {chunks : List (Chunk UInt8)}
    (hmax : request.toJson.toVec.length ≤ MAX_FRAME_BYTES)
    (hchunks : pending chunks = frame request.toJson.toVec) (s : σ) :
    let answer := respond serde handler 0 s request.toJson.toVec
    let served := serveChunks serde handler fault 0 s chunks
    served.written = answerBytes answer.1 ∧ served.state = answer.2 ∧
      served.handled = if request.toJson.depth ≤ serde.limit then [request.wrap] else [] := by
  have hframe : readRawFrame (pending chunks) = .ok (request.toJson.toVec, []) := by
    rw [hchunks, ← List.append_nil (frame _)]
    exact readRawFrame_frame hmax []
  obtain ⟨chunks', hrest, hserve⟩ := @serveChunks_ok _ serde handler fault _ _ _ hframe 0 s
  have hclosed : readRawFrame (pending chunks') = .error .closed := by
    rw [hrest]
    rfl
  have hhandled : (serde.fromSlice Request.fromJson request.toJson.toVec).toList =
      if request.toJson.depth ≤ serde.limit then [request.wrap] else [] := by
    rw [SerdeJson.fromSlice_toVec request.plain_toJson, request.fromJson_toJson]
    split <;> rfl
  simp only [hserve, answerBytes, hhandled]
  cases encode (respond serde handler 0 s request.toJson.toVec).1.toJson.toVec with
  | error e => exact ⟨rfl, rfl, rfl⟩
  | ok bytes =>
    obtain ⟨result, hstop⟩ := @serveChunks_error _ serde handler fault _ _ hclosed (0 + 1)
      (respond serde handler 0 s request.toJson.toVec).2
    simp only [hstop, List.append_nil]
    exact ⟨trivial, trivial, trivial⟩

/-- A request that has come whole is one call. -/
theorem serveChunks_whole {request : Request} {chunks : List (Chunk UInt8)}
    (hchunks : pending chunks = sentBytes request) (s : σ) :
    let served := serveChunks serde handler fault 0 s chunks
    (served.state, served.handled) = (remoteCall serde errorText handler s request).2 ∧
      (request.toJson.toVec.length ≤ MAX_FRAME_BYTES →
        ∃ answer, served.written = answerBytes answer ∧
          (remoteCall serde errorText handler s request).1 = receive serde errorText answer) := by
  unfold remoteCall
  by_cases hmax : MAX_FRAME_BYTES < request.toJson.toVec.length
  · have hclosed : readRawFrame (pending chunks) = .error .closed := by
      rw [hchunks, sentBytes, encode, if_pos hmax]
      rfl
    obtain ⟨result, hstop⟩ := @serveChunks_error _ serde handler fault _ _ hclosed 0 s
    rw [hstop]
    simp only [if_pos hmax]
    exact ⟨trivial, fun hle => absurd hmax (Nat.not_lt.mpr hle)⟩
  · have hframe : pending chunks = frame request.toJson.toVec := by
      rw [hchunks, sentBytes, encode, if_neg hmax]
    obtain ⟨hwritten, hstate, hhandled⟩ :=
      @serveChunks_frame _ serde handler fault _ _ (Nat.le_of_not_lt hmax) hframe s
    simp only [hwritten, hstate, hhandled, if_neg hmax, respond_toVec]
    by_cases hdepth : request.toJson.depth ≤ serde.limit
    · simp only [if_pos hdepth]
      exact ⟨trivial, fun _ => ⟨_, rfl, rfl⟩⟩
    · simp only [if_neg hdepth]
      exact ⟨trivial, fun _ => ⟨_, rfl, rfl⟩⟩

/-- A request that is cut somewhere has no effect. -/
theorem serveChunks_cut {request : Request} {chunks : List (Chunk UInt8)}
    (hstarts : pending chunks <+: sentBytes request) (hne : pending chunks ≠ sentBytes request)
    (s : σ) : ∃ result, serveChunks serde handler fault 0 s chunks = ⟨[], result, s, []⟩ := by
  by_cases hmax : MAX_FRAME_BYTES < request.toJson.toVec.length
  · rw [sentBytes, encode, if_pos hmax] at hstarts hne
    exact absurd (List.prefix_nil.mp hstarts) hne
  · rw [sentBytes, encode, if_neg hmax] at hstarts hne
    obtain ⟨e, he⟩ := readRawFrame_cut (Nat.le_of_not_lt hmax) hstarts hne
    exact serveChunks_error he 0 s

/-- The client returns what it reads, if it gets that far. -/
theorem exchange_ok {request : Request} {connection : Connection} {got : Response}
    (h : exchange serde errorText connection request = .ok got) :
    request.toJson.toVec.length ≤ MAX_FRAME_BYTES ∧
      (readFrame (clientCodec serde errorText) connection.fault connection.reply).result =
        .ok got := by
  unfold exchange encode at h
  by_cases hmax : MAX_FRAME_BYTES < request.toJson.toVec.length
  · simp [hmax] at h
  · simp only [if_neg hmax] at h
    refine ⟨Nat.le_of_not_lt hmax, ?_⟩
    split at h
    · cases h
    · exact h

theorem exchange_written {request : Request} {connection : Connection}
    (hmax : request.toJson.toVec.length ≤ MAX_FRAME_BYTES)
    (hwrite : ∀ bytes, connection.write bytes = .ok ()) :
    exchange serde errorText connection request =
      (readFrame (clientCodec serde errorText) connection.fault connection.reply).result := by
  simp only [exchange, encode, if_neg (Nat.not_lt.mpr hmax), hwrite]

/-- A response comes of a request that has come whole. -/
theorem exchange_sound {s : σ} {request : Request} {connection : Connection}
    {chunks : List (Chunk UInt8)} {got : Response} (hchunks : pending chunks <+: sentBytes request)
    (hreply : pending connection.reply <+: (serveChunks serde handler fault 0 s chunks).written)
    (hgot : exchange serde errorText connection request = .ok got) :
    pending chunks = sentBytes request ∧
      (remoteCall serde errorText handler s request).1 = .ok got := by
  obtain ⟨hmax, hgot⟩ := exchange_ok hgot
  by_cases hwhole : pending chunks = sentBytes request
  · obtain ⟨-, hanswered⟩ :=
      @serveChunks_whole _ serde errorText handler fault _ _ hwhole s
    obtain ⟨answer, hwritten, hcall⟩ := hanswered hmax
    rw [hwritten] at hreply
    exact ⟨hwhole, hcall.trans (receive_of_ok hreply hgot)⟩
  · obtain ⟨result, hcut⟩ := @serveChunks_cut _ serde handler fault _ _ hchunks hwhole s
    rw [hcut] at hreply
    have hclosed : readRawFrame (pending connection.reply) = .error .closed := by
      rw [List.prefix_nil.mp hreply]
      rfl
    obtain ⟨e, he⟩ := @readFrame_error connection.fault _ (clientCodec serde errorText) _ _ hclosed
    cases hgot.symm.trans he

/-- Over a connection that does not break, the client gets the result of the call. -/
theorem exchange_complete {s : σ} {request : Request} {connection : Connection}
    {chunks : List (Chunk UInt8)} (hchunks : pending chunks <+: sentBytes request)
    (hwrite : ∀ bytes, connection.write bytes = .ok ()) (hfault : connection.fault = none)
    (hreply : pending connection.reply = (serveChunks serde handler fault 0 s chunks).written) :
    exchange serde errorText connection request =
      if pending chunks = sentBytes request then (remoteCall serde errorText handler s request).1
      else .error .closed := by
  by_cases hmax : MAX_FRAME_BYTES < request.toJson.toVec.length
  · have hnothing : sentBytes request = [] := by rw [sentBytes, encode, if_pos hmax]
    rw [hnothing] at hchunks ⊢
    rw [if_pos (List.prefix_nil.mp hchunks)]
    simp only [exchange, encode, if_pos hmax, remoteCall]
  · have hle := Nat.le_of_not_lt hmax
    rw [exchange_written hle hwrite, hfault]
    split
    · rename_i hwhole
      obtain ⟨-, hanswered⟩ :=
        @serveChunks_whole _ serde errorText handler fault _ _ hwhole s
      obtain ⟨answer, hwritten, hcall⟩ := hanswered hle
      rw [hcall, readFrame_answer (hreply.trans hwritten)]
    · rename_i hcut
      obtain ⟨result, hcut⟩ := @serveChunks_cut _ serde handler fault _ _ hchunks hcut s
      rw [hcut] at hreply
      exact readFrame_closed (by simp [hreply])

/-- **A call over the socket is the call that the socket stands for, at most once.** Wherever the
request and the answer are cut, in whatever chunks they come, and whether or not the client still
waits: the daemon is left in the state of `remoteCall`, its handler given its requests, when the
whole request has come, and as it was otherwise.  A response that the client returns is the one of
`remoteCall`; and where nothing breaks but the request, its result is. -/
theorem send_refines_remoteCall {s : σ} {request : Request} {connection : Connection}
    {files : String → SocketPath} {path : String} {chunks : List (Chunk UInt8)} {inTime : Bool}
    (hfiles : files path = ⟨true, .ok connection⟩)
    (hchunks : pending chunks <+: sentBytes request)
    (hreply : pending connection.reply <+:
      (serveChunks serde handler fault 0 s chunks).written) :
    let served := serveChunks serde handler fault 0 s chunks
    let call := remoteCall serde errorText handler s request
    let sent := send serde errorText files (.unixSocket path) inTime request
    ((served.state, served.handled) =
      if pending chunks = sentBytes request then call.2 else (s, [])) ∧
    (∀ response, sent = .ok response →
      pending chunks = sentBytes request ∧ call.1 = .ok response) ∧
    (inTime = true → (∀ bytes, connection.write bytes = .ok ()) → connection.fault = none →
      pending connection.reply = served.written →
      sent = (if pending chunks = sentBytes request then call.1 else .error .closed).mapError
        .transport) := by
  have hsend : send serde errorText files (.unixSocket path) inTime request =
      if inTime then (exchange serde errorText connection request).mapError .transport
      else .error (.timeout DEFAULT_TIMEOUT) := by
    simp only [send, sendAsync, hfiles, if_true]
  intro served call sent
  refine ⟨?_, fun response hresponse => ?_, fun hinTime hwrite hfault hwhole => ?_⟩
  · split
    · rename_i hwhole
      exact (@serveChunks_whole _ serde errorText handler fault _ _ hwhole s).1
    · rename_i hcut
      obtain ⟨result, hcut⟩ := @serveChunks_cut _ serde handler fault _ _ hchunks hcut s
      rw [show served = _ from hcut]
  · rw [show sent = _ from hsend] at hresponse
    split at hresponse
    · refine exchange_sound hchunks hreply ?_
      cases hexchange : exchange serde errorText connection request with
      | error e =>
        rw [hexchange] at hresponse
        cases hresponse
      | ok got =>
        rw [hexchange] at hresponse
        cases hresponse
        rfl
    · cases hresponse
  · rw [show sent = _ from hsend, if_pos hinTime,
      exchange_complete hchunks hwrite hfault hwhole]

end Call

/-! ### A ping in two reads -/

def ping : Request := .statePing "1"

/-- The daemon gets the frame in two reads, the first of them inside the header. -/
def pingReads : List (Chunk UInt8) :=
  [⟨(frame ping.toJson.toVec).take 2, by simp [frame, toBeBytes]⟩,
    ⟨(frame ping.toJson.toVec).drop 2, by simp [frame, toBeBytes]⟩]

/-- A stream that arrives at once. -/
def atOnce (bytes : List UInt8) : List (Chunk UInt8) :=
  if h : bytes = [] then [] else [⟨bytes, h⟩]

theorem pending_atOnce (bytes : List UInt8) : pending (atOnce bytes) = bytes := by
  unfold atOnce
  split
  · rename_i h
    rw [h]
    rfl
  · simp

def pingConnection : Connection where
  write _ := .ok ()
  reply := atOnce
    (serveChunks defaultSerde plainHandler none 0 Headless.firstDaemon pingReads).written
  fault := none

/-- A client that waits is answered, and one that does not has called the daemon as well. -/
theorem send_ping :
    (∀ inTime, send defaultSerde (fun _ => "expected value")
        (fun _ => ⟨true, .ok pingConnection⟩) (.unixSocket "linkpilot.sock") inTime ping =
      if inTime then .ok (.pong "1" Headless.firstDaemon.version)
      else .error (.timeout DEFAULT_TIMEOUT)) ∧
    (serveChunks defaultSerde plainHandler none 0 Headless.firstDaemon pingReads).handled =
      [ping] := by
  have hlength : ¬ MAX_FRAME_BYTES < ping.toJson.toVec.length := by decide +kernel
  have hchunks : pending pingReads = sentBytes ping := by
    simp [pingReads, sentBytes, encode, hlength]
  have hsend := fun inTime => @send_refines_remoteCall _ defaultSerde (fun _ => "expected value")
    plainHandler none Headless.firstDaemon ping pingConnection
    (fun _ => ⟨true, .ok pingConnection⟩) "linkpilot.sock" pingReads inTime rfl
    (hchunks ▸ List.prefix_rfl) (by simp [pingConnection, pending_atOnce])
  simp only [if_pos hchunks] at hsend
  have hdepth : ping.toJson.depth ≤ defaultSerde.limit := by decide
  have hanswer : (plainHandler.handle 0 Headless.firstDaemon ping.wrap).1 =
      .pong "1" Headless.firstDaemon.version := rfl
  have hpong : ¬ MAX_FRAME_BYTES <
      (Response.pong "1" Headless.firstDaemon.version).toJson.toVec.length := by decide +kernel
  have hshallow : (Response.pong "1" Headless.firstDaemon.version).toJson.depth ≤
      defaultSerde.limit := by decide
  have hcall : remoteCall defaultSerde (fun _ => "expected value") plainHandler
      Headless.firstDaemon ping =
        (.ok (.pong "1" Headless.firstDaemon.version), Headless.firstDaemon, [ping]) := by
    simp only [remoteCall, if_neg hlength, if_pos hdepth, hanswer, receive, if_neg hpong,
      if_pos hshallow]
    rfl
  simp only [hcall] at hsend
  refine ⟨fun inTime => ?_, congrArg Prod.snd (hsend true).1⟩
  cases inTime with
  | true => exact (hsend true).2.2 rfl (fun _ => rfl) rfl (pending_atOnce _)
  | false => rfl

end LinkPilot
