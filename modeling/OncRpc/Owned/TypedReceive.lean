import OncRpc.Owned.Control

/-!
# Typed receivers

Generated methods receive a reply with one of two receivers.  `XdrReplyReceiver` decodes the
metadata of a result from a bounded scratch array and lets the terminal opaque value go straight to
the caller's buffer.  It runs the decoder of the metadata again on growing prefixes and asks for as
many bytes as the decoder reports missing; then it asks for the bytes of the value, and for its
padding.  `XdrDecodeReceiver` collects the whole result in the caller's buffer and decodes it at the
end.

The metadata type and its decoder are generated code, so they are a parameter: `XdrReplyMetadata`.
-/

namespace OncRpc

open Foundation

/-! ## Metadata -/

/-- A result with at most one terminal opaque value, without that value. -/
class XdrReplyMetadata (M : Type) where
  /-- Decode from the front of a slice; the bytes that are left are returned on an error too. -/
  decodeXdr : Bytes → Except XdrError M × Bytes
  /-- The largest number of bytes that metadata can take, the length of the value included. -/
  maxPrefixBytes : ℕ
  /-- The length of the opaque value, if the result has one. -/
  opaqueLen : M → Option ℕ

/-- A decoded value together with the destination and the number of bytes received into it. -/
structure TypedReceiveOutcome (M : Type) where
  result : Except RuntimeError M
  buffer : Bytes
  payloadLen : ℕ

/-- Write bytes over a part of a slice. -/
def overwrite (slice : Bytes) (offset : ℕ) (chunk : Bytes) : Bytes :=
  slice.take offset ++ chunk ++ slice.drop (offset + chunk.length)

/-! ## Direct receive -/

/-- The receiver of metadata and an opaque value. -/
structure XdrReplyReceiver (M : Type) where
  /-- The caller's destination. -/
  buffer : Bytes
  /-- The scratch array of the metadata. -/
  scratch : Bytes
  used : ℕ
  /-- How much of the scratch array the decoder has asked for. -/
  target : ℕ
  metadata : Option M
  dataLen : ℕ
  dataUsed : ℕ
  padding : Bytes
  paddingUsed : ℕ

namespace XdrReplyReceiver

variable {M : Type} [XdrReplyMetadata M]

/-- A receiver of which nothing is filled. -/
def new (buffer : Bytes) : XdrReplyReceiver M where
  buffer := buffer
  scratch := List.replicate (XdrReplyMetadata.maxPrefixBytes M) 0
  used := 0
  target := 0
  metadata := none
  dataLen := 0
  dataUsed := 0
  padding := [0, 0, 0]
  paddingUsed := 0

/-- The error of an opaque value that is longer than the destination. -/
def tooLargeError : RuntimeError := .transport "XDR opaque result exceeds caller destination"

/-- Decode the metadata, once all bytes asked for are there.  If the decoder reports that a field is
incomplete, ask for the bytes it misses. -/
def parsePrefix (r : XdrReplyReceiver M) : XdrReplyReceiver M × Except RuntimeError Unit :=
  if r.metadata.isSome ∨ r.used < r.target then (r, .ok ())
  else
    match XdrReplyMetadata.decodeXdr (r.scratch.take r.used) with
    | (.ok metadata, input) =>
      if input ≠ [] then (r, .error (.decode (.trailingBytes input.length)))
      else
        let r := { r with dataLen := (XdrReplyMetadata.opaqueLen metadata).getD 0 }
        if r.buffer.length < r.dataLen then (r, .error tooLargeError)
        else ({ r with metadata := some metadata }, .ok ())
    | (.error (.unexpectedEof needed), input) =>
      match checkedAdd r.used (max (needed - input.length) 1) with
      | none => (r, .error (.transport "XDR prefix length overflow"))
      | some target =>
        let r := { r with target := target }
        if r.scratch.length < r.target then
          (r, .error (.transport "XDR metadata exceeds generated prefix bound"))
        else (r, .ok ())
    | (.error error, _) => (r, .error (.decode error))

/-- The length of the next writable range: of the scratch array, of the destination, or of the
padding. -/
def range (r : XdrReplyReceiver M) : ℕ :=
  if r.metadata.isNone then r.target - r.used
  else if r.dataUsed < r.dataLen then r.dataLen - r.dataUsed
  else xdrPadding r.dataLen - r.paddingUsed

/-- Supply the next writable range. -/
def nextRange (r : XdrReplyReceiver M) : XdrReplyReceiver M × Except RuntimeError ℕ :=
  match r.parsePrefix with
  | (r, .error error) => (r, .error error)
  | (r, .ok ()) => (r, .ok r.range)

/-- Store bytes in the range supplied last. -/
def fill (r : XdrReplyReceiver M) (chunk : Bytes) : XdrReplyReceiver M :=
  if r.metadata.isNone then { r with scratch := overwrite r.scratch r.used chunk }
  else if r.dataUsed < r.dataLen then { r with buffer := overwrite r.buffer r.dataUsed chunk }
  else { r with padding := overwrite r.padding r.paddingUsed chunk }

/-- Commit the bytes stored. -/
def advance (r : XdrReplyReceiver M) (count : ℕ) : XdrReplyReceiver M × Except RuntimeError Unit :=
  if r.metadata.isNone then parsePrefix { r with used := r.used + count }
  else if r.dataUsed < r.dataLen then ({ r with dataUsed := r.dataUsed + count }, .ok ())
  else
    let r := { r with paddingUsed := r.paddingUsed + count }
    if (r.padding.take r.paddingUsed).any (· != 0) then
      (r, .error (.transport "nonzero XDR opaque padding"))
    else (r, .ok ())

/-- The typed outcome, given how the receive of the record ended. -/
def finish (r : XdrReplyReceiver M) (result : Except RuntimeError Unit) : TypedReceiveOutcome M :=
  match result with
  | .error error => ⟨.error error, r.buffer, r.dataUsed⟩
  | .ok () =>
    match r.parsePrefix with
    | (r, .error error) => ⟨.error error, r.buffer, r.dataUsed⟩
    | (r, .ok ()) =>
      let result :=
        if r.dataUsed ≠ r.dataLen ∨ r.paddingUsed ≠ xdrPadding r.dataLen then
          .error (.transport "truncated XDR opaque result")
        else match r.metadata with
          | some metadata => .ok metadata
          | none => .error (.transport "truncated XDR result metadata")
      ⟨result, r.buffer, r.dataUsed⟩

instance : ReplyReceiver (XdrReplyReceiver M) where
  buffer := nextRange
  fill := fill
  advance := advance

end XdrReplyReceiver

/-! ## Receive and decode -/

/-- The receiver of a whole result. -/
structure XdrDecodeReceiver where
  buffer : Bytes
  used : ℕ

namespace XdrDecodeReceiver

/-- A receiver of which nothing is filled. -/
def new (buffer : Bytes) : XdrDecodeReceiver := ⟨buffer, 0⟩

/-- Supply the rest of the destination. -/
def nextRange (r : XdrDecodeReceiver) : XdrDecodeReceiver × Except RuntimeError ℕ :=
  (r, .ok (r.buffer.length - r.used))

/-- Store bytes behind those received. -/
def fill (r : XdrDecodeReceiver) (chunk : Bytes) : XdrDecodeReceiver :=
  { r with buffer := overwrite r.buffer r.used chunk }

/-- Commit the bytes stored. -/
def advance (r : XdrDecodeReceiver) (count : ℕ) : XdrDecodeReceiver × Except RuntimeError Unit :=
  ({ r with used := r.used + count }, .ok ())

instance : ReplyReceiver XdrDecodeReceiver where
  buffer := nextRange
  fill := fill
  advance := advance

end XdrDecodeReceiver

/-! ## The reply of a typed call -/

/-- Check the header of a reply. -/
def handleReply (xid : Xid) (reply : RpcMessage) : Except RuntimeError Unit :=
  if reply.xid ≠ xid then .error (.xidMismatch xid reply.xid)
  else match reply.body with
  | .call _ => .error .unexpectedCallMessage
  | .reply (.accepted ⟨_, status⟩) =>
    match status with
    | .success _ => .ok ()
    | .programUnavailable => .error .programUnavailable
    | .programMismatch range => .error (.programMismatch range)
    | .procedureUnavailable => .error .procedureUnavailable
    | .garbageArgs => .error .garbageArgs
    | .systemError => .error .systemError
  | .reply (.denied (.rpcMismatch range)) => .error (.rpcMismatch range)
  | .reply (.denied (.authError status)) => .error (.authError status)

/-- A successful reply with the transaction id of the call is taken. -/
theorem handleReply_of_isSuccess {reply : RpcMessage} (h : reply.isSuccess = true) :
    handleReply reply.xid reply = .ok () := by
  unfold RpcMessage.isSuccess at h
  unfold handleReply
  rw [if_neg (by simp)]
  split at h
  · next hbody => rw [hbody]
  · cases h

end OncRpc
