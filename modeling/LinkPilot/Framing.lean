import LinkPilot.Server
import LinkPilot.Lib.ChunkedRead

/-!
# The frame codec over a chunked stream

Model of `encode`, `decode`, `read_frame` and `read_raw_frame` of `crates/ipc/src/transport.rs` for
any type of messages, over a stream that arrives in any chunks, with the sizes of the buffers that
the reader asks for.

Principal results:

* `readRawFrameFrom_closed` — however a closed stream is chunked, a frame is read as
  `readRawFrame` reads it from the bytes.
* `frames_read_back` — the frames of a list of messages are read back in order and then `Closed`;
  the sender accepts what the receiver accepts; a cut frame is an error; no buffer exceeds the cap.
-/

set_option autoImplicit false

namespace LinkPilot

open ChunkedRead

/-! ## `transport.rs` -/

/-- `serde_json::to_vec` and `serde_json::from_slice` for the messages of one type. -/
structure MessageCodec (T : Type) where
  toVec : T → Except String (List UInt8)
  fromSlice : List UInt8 → Except String T

namespace MessageCodec

variable {T : Type} (codec : MessageCodec T)

/-- `encode`. -/
def encode (msg : T) : Except TransportError (List UInt8) :=
  match codec.toVec msg with
  | .error e => .error (.serde e)
  | .ok json => LinkPilot.encode json

/-- `decode`. -/
def decode (bytes : List UInt8) : Except TransportError T :=
  match codec.fromSlice bytes with
  | .error e => .error (.serde e)
  | .ok msg => .ok msg

/-- What `serde_json` encodes, it decodes. -/
def ReadsBack (msg : T) : Prop :=
  ∀ json, codec.toVec msg = .ok json → codec.fromSlice json = .ok msg

end MessageCodec

/-- A call of the frame reader: what it returns, the sizes of the buffers it asks for, and what it
leaves of the stream. -/
structure FrameRead (α : Type) where
  result : Except TransportError α
  buffers : List Nat
  rest : List (Chunk UInt8)

/-- `u32::from_be_bytes` of a buffer of four bytes. -/
def beLength (header : List UInt8) : Nat :=
  header.foldl (fun len byte => len * 256 + byte.toNat) 0

/-- `read_raw_frame`, on a stream that is closed behind its chunks or fails there with an error of
another kind than `UnexpectedEof`. -/
def readRawFrameFrom (fault : Option String) (chunks : List (Chunk UInt8)) :
    FrameRead (List UInt8) :=
  match readExact fault 4 chunks with
  | .error .unexpectedEof => ⟨.error .closed, [4], []⟩
  | .error (.other e) => ⟨.error (.io e), [4], []⟩
  | .ok (header, chunks) =>
    let len := beLength header
    if MAX_FRAME_BYTES < len then ⟨.error (.frameTooLarge len), [4], chunks⟩
    else
      match readExact fault len chunks with
      | .error .unexpectedEof => ⟨.error (.io "early eof"), [4, len], []⟩
      | .error (.other e) => ⟨.error (.io e), [4, len], []⟩
      | .ok (buf, chunks) => ⟨.ok buf, [4, len], chunks⟩

/-- `read_frame`. -/
def readFrame {T : Type} (codec : MessageCodec T) (fault : Option String)
    (chunks : List (Chunk UInt8)) : FrameRead T :=
  let raw := readRawFrameFrom fault chunks
  ⟨raw.result.bind codec.decode, raw.buffers, raw.rest⟩

/-- The results of `n` calls of `read_frame`, one after the other. -/
def readFrames {T : Type} (codec : MessageCodec T) :
    Nat → List (Chunk UInt8) → List (Except TransportError T)
  | 0, _ => []
  | n + 1, chunks =>
    let read := readFrame codec none chunks
    read.result :: readFrames codec n read.rest

/-! ## The chunks do not matter -/

theorem beLength_four (a b c d : UInt8) : beLength [a, b, c, d] = fromBeBytes a b c d := by
  simp [beLength, fromBeBytes]

theorem readRawFrame_short {stream : List UInt8} (h : stream.length < 4) :
    readRawFrame stream = .error .closed := by
  rcases stream with _ | ⟨a, _ | ⟨b, _ | ⟨c, _ | ⟨d, rest⟩⟩⟩⟩
  · rfl
  · rfl
  · rfl
  · rfl
  · simp at h
    omega

theorem exists_header {stream : List UInt8} (h : 4 ≤ stream.length) :
    ∃ a b c d rest, stream = a :: b :: c :: d :: rest := by
  rcases stream with _ | ⟨a, _ | ⟨b, _ | ⟨c, _ | ⟨d, rest⟩⟩⟩⟩
  · simp at h
  · simp at h
  · simp at h
  · simp at h
  · exact ⟨a, b, c, d, rest, rfl⟩

/-- However a closed stream is chunked, its bytes decide what is read and what is left. -/
theorem readRawFrameFrom_closed (chunks : List (Chunk UInt8)) :
    (readRawFrameFrom none chunks).result = (readRawFrame (pending chunks)).map Prod.fst ∧
      ∀ raw rest, readRawFrame (pending chunks) = .ok (raw, rest) →
        pending (readRawFrameFrom none chunks).rest = rest := by
  by_cases hheader : 4 ≤ (pending chunks).length
  · obtain ⟨afterHeader, hread, hpending⟩ := readExact_ok (none : Option String) hheader
    obtain ⟨a, b, c, d, bytes, hbytes⟩ := exists_header hheader
    rw [hbytes] at hread hpending
    simp at hread hpending
    simp only [readRawFrameFrom, hread, hbytes, readRawFrame, beLength_four]
    by_cases hmax : MAX_FRAME_BYTES < fromBeBytes a b c d
    · simp [hmax, Except.map]
    · by_cases hlen : bytes.length < fromBeBytes a b c d
      · have hshort := readExact_error (none : Option String) (hpending ▸ hlen)
        simp [hmax, hlen, hshort, ending, Except.map]
      · have hfits : fromBeBytes a b c d ≤ (pending afterHeader).length := by
          rw [hpending]
          omega
        obtain ⟨rest, hbody, hrest⟩ := readExact_ok (none : Option String) hfits
        rw [hpending] at hbody hrest
        simp [hmax, hlen, hbody, hrest, Except.map]
  · have hshort := readExact_error (none : Option String) (Nat.lt_of_not_le hheader)
    have hclosed := readRawFrame_short (Nat.lt_of_not_le hheader)
    simp [readRawFrameFrom, hshort, hclosed, ending, Except.map]

/-! ## The reader -/

section Reader

variable {T : Type} {codec : MessageCodec T} {msg : T} {chunks : List (Chunk UInt8)}

/-- The text of a frame that `encode` has made. -/
theorem encode_eq_ok {bytes : List UInt8} :
    codec.encode msg = .ok bytes ↔
      ∃ json, codec.toVec msg = .ok json ∧ json.length ≤ MAX_FRAME_BYTES ∧ bytes = frame json := by
  unfold MessageCodec.encode LinkPilot.encode
  cases codec.toVec msg with
  | error e => simp
  | ok json =>
    by_cases hmax : MAX_FRAME_BYTES < json.length
    · simp [hmax, Nat.not_le_of_lt hmax]
    · simp [hmax, Nat.le_of_not_lt hmax, eq_comm]

theorem readFrame_frame {bytes rest : List UInt8} (hserde : codec.ReadsBack msg)
    (hencode : codec.encode msg = .ok bytes) (hchunks : pending chunks = bytes ++ rest) :
    (readFrame codec none chunks).result = .ok msg ∧
      pending (readFrame codec none chunks).rest = rest := by
  obtain ⟨json, hjson, hmax, rfl⟩ := encode_eq_ok.mp hencode
  have hframe : readRawFrame (pending chunks) = .ok (json, rest) := by
    rw [hchunks, readRawFrame_frame hmax]
  obtain ⟨hresult, hrest⟩ := readRawFrameFrom_closed chunks
  refine ⟨?_, hrest json rest hframe⟩
  simp [readFrame, hresult, hframe, Except.map, Except.bind, MessageCodec.decode,
    hserde json hjson]

theorem readFrame_closed (hchunks : (pending chunks).length < 4) :
    (readFrame codec none chunks).result = .error .closed := by
  have hread := readExact_error (none : Option String) hchunks
  simp [readFrame, readRawFrameFrom, hread, ending, Except.bind]

/-- The whole conversation: the messages, and then the end of the stream. -/
theorem readFrames_flatten {msgs : List T} {frames : List (List UInt8)}
    (hserde : ∀ m ∈ msgs, codec.ReadsBack m)
    (hencode : List.Forall₂ (fun m bytes => codec.encode m = .ok bytes) msgs frames) :
    ∀ {chunks : List (Chunk UInt8)}, pending chunks = frames.flatten →
      readFrames codec (msgs.length + 1) chunks = msgs.map .ok ++ [.error .closed] := by
  induction hencode with
  | nil =>
    intro chunks hchunks
    have hclosed : (readFrame codec none chunks).result = .error .closed :=
      readFrame_closed (by simp [hchunks])
    simp [readFrames, hclosed]
  | @cons m bytes msgs frames hm _ ih =>
    intro chunks hchunks
    simp only [List.flatten_cons] at hchunks
    obtain ⟨hresult, hrest⟩ := readFrame_frame (hserde m (by simp)) hm hchunks
    have htail := ih (fun m hm => hserde m (by simp [hm])) hrest
    simp only [List.length_cons, readFrames, hresult, List.map_cons, List.cons_append] at htail ⊢
    rw [htail]

theorem length_frame (json : List UInt8) : (frame json).length = json.length + 4 := by
  simp [frame, toBeBytes]

/-- The header says how long the text is. -/
theorem beLength_frame {json : List UInt8} (h : json.length ≤ MAX_FRAME_BYTES) :
    beLength ((frame json).take 4) = json.length := by
  have hmax : MAX_FRAME_BYTES < 4294967296 := by decide
  simp only [frame, toBeBytes, List.cons_append, List.nil_append, List.take_succ_cons,
    List.take_zero, beLength_four]
  exact fromBeBytes_toBeBytes (Nat.lt_of_le_of_lt h hmax)

/-- A frame that is cut somewhere is no message: the stream counts as closed inside the header, and
is an early end behind it. -/
theorem readFrame_cut {bytes cut : List UInt8} (hencode : codec.encode msg = .ok bytes)
    (hstarts : cut <+: bytes) (hne : cut ≠ bytes) (hchunks : pending chunks = cut) :
    (readFrame codec none chunks).result =
      .error (if cut.length < 4 then .closed else .io "early eof") := by
  obtain ⟨json, -, hmax, rfl⟩ := encode_eq_ok.mp hencode
  have hlt : cut.length < json.length + 4 := by
    rw [← length_frame json]
    exact Nat.lt_of_le_of_ne hstarts.length_le fun h => hne (hstarts.eq_of_length h)
  by_cases hheader : cut.length < 4
  · rw [if_pos hheader]
    exact readFrame_closed (hchunks ▸ hheader)
  · have hfits : 4 ≤ (pending chunks).length := by
      rw [hchunks]
      omega
    obtain ⟨rest, hread, hpending⟩ := readExact_ok (none : Option String) hfits
    have htake : (pending chunks).take 4 = (frame json).take 4 := by
      obtain ⟨missing, hmissing⟩ := hstarts
      rw [hchunks, ← hmissing, List.take_append_of_le_length (by omega)]
    rw [htake] at hread
    have hshort : (pending rest).length < json.length := by
      simp [hpending, hchunks]
      omega
    have hbody := readExact_error (none : Option String) hshort
    simp [readFrame, readRawFrameFrom, hread, beLength_frame hmax, Nat.not_lt.mpr hmax, hbody,
      ending, hheader, Except.bind]

theorem buffers_le (fault : Option String) :
    ∀ n ∈ (readFrame codec fault chunks).buffers, n ≤ MAX_FRAME_BYTES := by
  have hfour : 4 ≤ MAX_FRAME_BYTES := by decide
  have hclosed : ∀ n ∈ [4], n ≤ MAX_FRAME_BYTES := by simp [hfour]
  simp only [readFrame, readRawFrameFrom]
  split
  · exact hclosed
  · exact hclosed
  · split
    · exact hclosed
    · rename_i header _ _ hmax
      have hboth : ∀ n ∈ [4, beLength header], n ≤ MAX_FRAME_BYTES := by
        simp [hfour, Nat.le_of_not_lt hmax]
      split <;> exact hboth

/-- The receiver takes frames of the given length: some header announces it, and no stream with this
header is refused for its length. -/
def Accepts (codec : MessageCodec T) (len : Nat) : Prop :=
  ∃ header : List UInt8, header.length = 4 ∧ beLength header = len ∧
    ∀ fault chunks, header <+: pending chunks →
      ∀ n, (readFrame codec fault chunks).result ≠ .error (.frameTooLarge n)

variable (codec) in
/-- A stream whose header is `header` is refused for its length exactly when this exceeds the cap.
-/
theorem readFrame_tooLarge_iff {header : List UInt8} (hlength : header.length = 4)
    (fault : Option String) (hstarts : header <+: pending chunks) :
    (∃ n, (readFrame codec fault chunks).result = .error (.frameTooLarge n)) ↔
      MAX_FRAME_BYTES < beLength header := by
  have hfits : 4 ≤ (pending chunks).length := hlength ▸ hstarts.length_le
  obtain ⟨rest, hread, -⟩ := readExact_ok fault hfits
  have htake : (pending chunks).take 4 = header := by
    rw [← hlength]
    exact (List.prefix_iff_eq_take.mp hstarts).symm
  rw [htake] at hread
  simp only [readFrame, readRawFrameFrom, hread]
  by_cases hmax : MAX_FRAME_BYTES < beLength header
  · simp [hmax, Except.bind]
  · simp only [hmax, if_false, iff_false]
    rintro ⟨n, hn⟩
    split at hn
    · simp [Except.bind] at hn
    · simp [Except.bind] at hn
    · simp only [Except.bind, MessageCodec.decode] at hn
      split at hn <;> cases hn

theorem accepts_iff {len : Nat} : Accepts codec len ↔ len ≤ MAX_FRAME_BYTES := by
  constructor
  · rintro ⟨header, hlength, rfl, haccepts⟩
    by_contra hmax
    have hne : header ≠ [] := by
      rintro rfl
      simp at hlength
    have hstarts : header <+: pending [⟨header, hne⟩] := by simp
    obtain ⟨n, hn⟩ := (readFrame_tooLarge_iff codec hlength none hstarts).mpr (by omega)
    exact haccepts none _ hstarts n hn
  · intro hmax
    have hlt : len < 4294967296 := Nat.lt_of_le_of_lt hmax (by decide)
    have hheader : beLength (toBeBytes len) = len := by
      simp only [toBeBytes, beLength_four, fromBeBytes_toBeBytes hlt]
    refine ⟨toBeBytes len, rfl, hheader, fun fault chunks hstarts n hn => ?_⟩
    have hlarge := (readFrame_tooLarge_iff codec rfl fault hstarts).mp ⟨n, hn⟩
    omega

end Reader

/-! ## The codec -/

/-- The sender takes a message exactly when the receiver takes frames of the length of its text, and
what it sends announces this length. -/
def SenderAgrees {T : Type} (codec : MessageCodec T) : Prop :=
  ∀ msg json, codec.toVec msg = .ok json →
    ((∃ bytes, codec.encode msg = .ok bytes) ↔ Accepts codec json.length) ∧
    ∀ bytes, codec.encode msg = .ok bytes →
      bytes.length = json.length + 4 ∧ beLength (bytes.take 4) = json.length

/-- No strict prefix of a frame, however it is chunked, is read as a message. -/
def CutIsError {T : Type} (codec : MessageCodec T) : Prop :=
  ∀ msg bytes cut chunks, codec.encode msg = .ok bytes → cut <+: bytes → cut ≠ bytes →
    pending chunks = cut → ∃ e, (readFrame codec none chunks).result = .error e

theorem senderAgrees {T : Type} (codec : MessageCodec T) : SenderAgrees codec := by
  intro msg json hjson
  rw [accepts_iff]
  refine ⟨⟨?_, fun hmax => ⟨frame json, encode_eq_ok.mpr ⟨json, hjson, hmax, rfl⟩⟩⟩, ?_⟩
  · rintro ⟨bytes, hencode⟩
    obtain ⟨json', hjson', hmax, -⟩ := encode_eq_ok.mp hencode
    cases hjson.symm.trans hjson'
    exact hmax
  · intro bytes hencode
    obtain ⟨json', hjson', hmax, rfl⟩ := encode_eq_ok.mp hencode
    cases hjson.symm.trans hjson'
    exact ⟨length_frame json, beLength_frame hmax⟩

/-- **The frame codec.** Messages that `encode` accepts are read back from their frames, in order,
however these are split into reads, and then the connection counts as closed. The sender accepts a
message exactly when the receiver accepts its length, a cut frame is an error, and no stream makes
the reader ask for a buffer above the cap. -/
theorem frames_read_back {T : Type} {codec : MessageCodec T} {msgs : List T}
    {frames : List (List UInt8)} {chunks : List (Chunk UInt8)}
    (hserde : ∀ msg ∈ msgs, codec.ReadsBack msg)
    (hencode : List.Forall₂ (fun msg bytes => codec.encode msg = .ok bytes) msgs frames)
    (hchunks : pending chunks = frames.flatten) :
    readFrames codec (msgs.length + 1) chunks = msgs.map .ok ++ [.error .closed] ∧
      SenderAgrees codec ∧ CutIsError codec ∧
      ∀ fault stream, ∀ n ∈ (readFrame codec fault stream).buffers, n ≤ MAX_FRAME_BYTES := by
  refine ⟨readFrames_flatten hserde hencode hchunks, senderAgrees codec, ?_, fun fault _ =>
    buffers_le fault⟩
  intro msg bytes cut stream hmsg hstarts hne hcut
  exact ⟨_, readFrame_cut hmsg hstarts hne hcut⟩

/-! ### Two responses in three reads -/

/-- `serde_json` for responses. -/
def responseCodec : MessageCodec Response where
  toVec r := .ok r.toJson.toVec
  fromSlice bytes :=
    match defaultSerde.fromSlice Response.fromJson bytes with
    | some r => .ok r
    | none => .error "expected value"

theorem responseCodec_readsBack {r : Response} (hdepth : r.toJson.depth ≤ defaultSerde.limit)
    (hwrap : r.wrap = r) : responseCodec.ReadsBack r := by
  intro json hjson
  cases hjson
  have hslice : defaultSerde.fromSlice Response.fromJson r.toJson.toVec = some r := by
    rw [SerdeJson.fromSlice_toVec r.plain_toJson, if_pos hdepth, r.fromJson_toJson, hwrap]
  simp only [responseCodec, hslice]

theorem responseCodec_encode {r : Response} (h : r.toJson.toVec.length ≤ MAX_FRAME_BYTES) :
    responseCodec.encode r = .ok (frame r.toJson.toVec) :=
  encode_eq_ok.mpr ⟨r.toJson.toVec, rfl, h, rfl⟩

def unknownReply : Response := .error "1" ERROR_UNKNOWN_VERB "unknown variant `state-dump`"

def pong : Response := .pong "2" "0.1.0"

def twoFrames : List UInt8 := frame unknownReply.toJson.toVec ++ frame pong.toJson.toVec

/-- The first read ends inside a header, and the second takes the rest of this frame together with
the header and a part of the text of the next one. -/
def splitReads : List (Chunk UInt8) :=
  [⟨twoFrames.take 2, by decide +kernel⟩,
    ⟨(twoFrames.drop 2).take 120, by decide +kernel⟩,
    ⟨(twoFrames.drop 2).drop 120, by decide +kernel⟩]

theorem pending_splitReads : pending splitReads = twoFrames := by
  simp only [splitReads, pending_cons, pending_nil, List.append_nil, List.take_append_drop]

theorem frames_read_back_splitReads :
    readFrames responseCodec 3 splitReads = [.ok unknownReply, .ok pong, .error .closed] := by
  have hserde : ∀ msg ∈ [unknownReply, pong], responseCodec.ReadsBack msg := by
    intro msg hmsg
    rcases List.mem_pair.mp hmsg with rfl | rfl
    · exact responseCodec_readsBack (by decide) rfl
    · exact responseCodec_readsBack (by decide) rfl
  have hencode : List.Forall₂ (fun msg bytes => responseCodec.encode msg = .ok bytes)
      [unknownReply, pong] [frame unknownReply.toJson.toVec, frame pong.toJson.toVec] :=
    .cons (responseCodec_encode (by decide +kernel))
      (.cons (responseCodec_encode (by decide +kernel)) .nil)
  have hreads : pending splitReads =
      [frame unknownReply.toJson.toVec, frame pong.toJson.toVec].flatten := by
    simp [pending_splitReads, twoFrames]
  exact (frames_read_back hserde hencode hreads).1

end LinkPilot
