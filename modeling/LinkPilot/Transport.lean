import LinkPilot.Protocol

/-!
# Wire framing

Model of `crates/ipc/src/transport.rs`: a frame is the length of a JSON text, as a big-endian `u32`,
and the text.  A stream is what is still to come of it; it ends where the peer closes it.

Principal results:

* `readRawFrame_frame` — a frame is read back, and the rest of the stream is left.
* `fromSlice_toVec` — a text that was written is decoded unless it is nested too deep.
-/

set_option autoImplicit false

namespace LinkPilot

open Serde

/-! ## Texts -/

/-- What `serde_json` adds to the grammar: how deep a text may be nested, and which numbers that are
no integers of 64 bits are in the range of a float.  The limit is 127 by default: a counter starts
at 128, each container takes one, and at zero the text is refused. -/
structure SerdeJson where
  limit : Nat
  finite : String → Bool

namespace SerdeJson

variable (serde : SerdeJson)

/-- `serde_json::from_slice`. -/
def fromSlice {α : Type} (dec : Json → Option α) (bytes : List UInt8) : Option α :=
  (Json.tokens serde.finite bytes).bind (Json.fromStr serde.limit dec)

/-- `peek_request_id`. -/
def peekRequestId (raw : List UInt8) : Option String :=
  (serde.fromSlice some raw).bind fun v => (v.toValue.entry "request_id").bind Json.string

variable {serde}

/-- A text that was written is decoded unless it is nested too deep. -/
theorem fromSlice_toVec {α : Type} {dec : Json → Option α} {j : Json} (h : j.Plain) :
    serde.fromSlice dec j.toVec = if j.depth ≤ serde.limit then dec j else none := by
  unfold fromSlice
  rw [Json.tokens_toVec serde.finite h, Option.bind_some]
  rfl

end SerdeJson

/-! ## Frames -/

def MAX_FRAME_BYTES : Nat := 4 * 1024 * 1024

/-- `(len as u32).to_be_bytes()`. -/
def toBeBytes (len : Nat) : List UInt8 :=
  [.ofNat (len / 16777216), .ofNat (len / 65536), .ofNat (len / 256), .ofNat len]

/-- `u32::from_be_bytes`. -/
def fromBeBytes (a b c d : UInt8) : Nat :=
  ((a.toNat * 256 + b.toNat) * 256 + c.toNat) * 256 + d.toNat

/-- The bytes of a frame. -/
def frame (json : List UInt8) : List UInt8 := toBeBytes json.length ++ json

/-- `encode`, for the text that `serde_json::to_vec` makes of the message. -/
def encode (json : List UInt8) : Except TransportError (List UInt8) :=
  if MAX_FRAME_BYTES < json.length then .error (.frameTooLarge json.length) else .ok (frame json)

/-- `read_raw_frame`: the text, and what is left of the stream. -/
def readRawFrame : List UInt8 → Except TransportError (List UInt8 × List UInt8)
  | a :: b :: c :: d :: rest =>
    let len := fromBeBytes a b c d
    if MAX_FRAME_BYTES < len then .error (.frameTooLarge len)
    else if rest.length < len then .error (.io "early eof")
    else .ok (rest.take len, rest.drop len)
  -- an end of the stream inside the length counts as closed too
  | _ => .error .closed

theorem fromBeBytes_toBeBytes {len : Nat} (h : len < 4294967296) :
    fromBeBytes (.ofNat (len / 16777216)) (.ofNat (len / 65536)) (.ofNat (len / 256)) (.ofNat len) =
      len := by
  simp only [fromBeBytes, UInt8.toNat_ofNat']
  omega

theorem readRawFrame_frame {raw : List UInt8} (h : raw.length ≤ MAX_FRAME_BYTES)
    (rest : List UInt8) : readRawFrame (frame raw ++ rest) = .ok (raw, rest) := by
  have hmax : MAX_FRAME_BYTES < 4294967296 := by decide
  have hlen := fromBeBytes_toBeBytes (Nat.lt_of_le_of_lt h hmax)
  simp only [frame, toBeBytes, List.cons_append, List.nil_append, readRawFrame, hlen]
  rw [if_neg (by omega), if_neg (by rw [List.length_append]; omega), List.take_left, List.drop_left]

/-- A frame takes something of the stream. -/
theorem length_of_readRawFrame {stream raw rest : List UInt8}
    (h : readRawFrame stream = .ok (raw, rest)) : rest.length < stream.length := by
  unfold readRawFrame at h
  split at h
  · simp only at h
    split at h
    · cases h
    · split at h
      · cases h
      · cases h
        simp only [List.length_drop, List.length_cons]
        omega
  · cases h

end LinkPilot
