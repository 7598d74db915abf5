import OncRpc.Owned.Envelope
import OncRpc.Record.Reader

/-!
# Receiving a reply

Once the transaction id of a record has named a registered call, the reader receives the rest of
the record for that call: a buffered call gets the whole record put together and decoded, a
segmented call gets its envelope decoded from a scratch array and its payload written straight into
the caller's destination.  `Receive` is the state of this part of `receive_record`: the cursor, the
target, and the stage reached; it suspends only in reads of the record.
-/

namespace OncRpc

open Foundation Foundation.ReadProgram

/-! ## Destinations -/

/-- A destination that chooses a new writable range after each read. -/
class ReplyReceiver (R : Type) where
  /-- Supply the next writable range; the result is its length, zero when the receiver is full. -/
  buffer : R → R × Except RuntimeError ℕ
  /-- Store bytes at the start of the range supplied last. -/
  fill : R → Bytes → R
  /-- Commit the bytes stored. -/
  advance : R → ℕ → R × Except RuntimeError Unit

/-- The receive target of a segmented call, while it owns the receiver. -/
structure Target (R : Type) where
  receiver : R
  payloadLen : ℕ

/-- How a registered call takes its reply. -/
inductive ResponseSender (R : Type) where
  | buffered
  | segmented (target : Target R)

namespace Target

variable {R : Type} [ReplyReceiver R]

/-- The next writable range. -/
def buffer (t : Target R) : Target R × Except RuntimeError ℕ :=
  let (receiver, result) := ReplyReceiver.buffer t.receiver
  ({ t with receiver := receiver }, result)

/-- Store bytes in the range supplied last. -/
def fill (t : Target R) (chunk : Bytes) : Target R :=
  { t with receiver := ReplyReceiver.fill t.receiver chunk }

/-- Count and commit bytes. -/
def advance (t : Target R) (bytes : ℕ) : Target R × Except RuntimeError Unit :=
  match checkedAdd t.payloadLen bytes with
  | none => (t, .error (.transport "RPC receive byte count overflow"))
  | some payloadLen =>
    let (receiver, result) := ReplyReceiver.advance t.receiver bytes
    (⟨receiver, payloadLen⟩, result)

end Target

/-- The caller's buffers, filled one after the other. -/
structure Buffers where
  buffers : List Bytes
  index : ℕ
  offset : ℕ

namespace Buffers

/-- Skip the buffers that are full. -/
def skipFull (b : Buffers) : Buffers :=
  if _ : b.index < b.buffers.length ∧ b.offset = (b.buffers[b.index]?.getD []).length then
    skipFull { b with index := b.index + 1, offset := 0 }
  else b
termination_by b.buffers.length - b.index

/-- The next writable range. -/
def buffer (b : Buffers) : Buffers × Except RuntimeError ℕ :=
  let b := b.skipFull
  if b.index = b.buffers.length then (b, .ok 0)
  else (b, .ok ((b.buffers[b.index]?.getD []).length - b.offset))

/-- Store bytes at the current position. -/
def fill (b : Buffers) (chunk : Bytes) : Buffers :=
  let buf := b.buffers[b.index]?.getD []
  { b with
    buffers := b.buffers.set b.index
      (buf.take b.offset ++ chunk ++ buf.drop (b.offset + chunk.length)) }

/-- Move past the bytes stored. -/
def advance (b : Buffers) (bytes : ℕ) : Buffers × Except RuntimeError Unit :=
  ({ b with offset := b.offset + bytes }, .ok ())

instance : ReplyReceiver Buffers where
  buffer := buffer
  fill := fill
  advance := advance

end Buffers

/-! ## The stages of a receive -/

/-- The message is a successful reply. -/
def RpcMessage.isSuccess (m : RpcMessage) : Bool :=
  match m.body with
  | .reply (.accepted ⟨_, .success _⟩) => true
  | _ => false

/-- How far a receive has come.  An `ended` receive has its result: the message, and for a
segmented target the number of payload bytes or `usizeMax` if they exceeded the destination. -/
inductive Stage (R : Type) where
  /-- A buffered reply is put together. -/
  | assemble (bytes : Bytes)
  /-- A read of the envelope has got some of its `count` bytes. -/
  | header (target : Target R) (count : ℕ) (next : Bytes → Envelope RpcMessage) (got : Bytes)
  /-- The payload is written to a range of `room` bytes. -/
  | payload (target : Target R) (reply : RpcMessage) (length room : ℕ)
  /-- One more byte is read to see whether the record ends here. -/
  | probe (target : Target R) (reply : RpcMessage) (success : Bool) (length : ℕ)
  /-- The rest of an over-long record is counted. -/
  | extra (target : Target R) (reply : RpcMessage) (success : Bool) (count : ℕ)
  | ended (sender : ResponseSender R) (result : Except RuntimeError (RpcMessage × ℕ))
  | panicked (target : Target R)

/-- The result of a buffered record. -/
def assembled (bytes : Bytes) : Except RuntimeError (RpcMessage × ℕ) :=
  match RpcMessage.decode bytes with
  | .error e => .error (.wire e)
  | .ok message => if message.isReply then .ok (message, 0) else .error .unexpectedCallMessage

/-- The result of a record with bytes after its envelope or beyond its destination. -/
def overrun (reply : RpcMessage) (success : Bool) (count : ℕ) :
    Except RuntimeError (RpcMessage × ℕ) :=
  if success then .ok (reply, usizeMax) else .error (.wire (.trailingBytes count))

namespace Stage

variable {R : Type} [ReplyReceiver R]

/-- Who is told the result. -/
def sender : Stage R → ResponseSender R
  | .assemble _ => .buffered
  | .header target .. | .payload target .. | .probe target .. | .extra target .. |
    .panicked target => .segmented target
  | .ended sender _ => sender

/-- The length of the storage offered to the pending read of the record, and the result in case
the record ends there. -/
def pending : Stage R → Option (ℕ × Except RuntimeError (RpcMessage × ℕ))
  | .assemble bytes => some (4096, assembled bytes)
  | .header _ count _ got => some (count - got.length, .error (recordEof (count - got.length)))
  | .payload _ reply length room => some (room, .ok (reply, length))
  | .probe _ reply _ length => some (1, .ok (reply, length))
  | .extra _ reply success count => some (4096, overrun reply success count)
  | .ended .. | .panicked _ => none

/-- The result of a receive that is over; a panic has none. -/
def outcome : Stage R → Option (Except RuntimeError (RpcMessage × ℕ))
  | .ended _ result => some result
  | _ => none

/-- Ask the destination for its next range. -/
def nextRange (target : Target R) (reply : RpcMessage) (length : ℕ) : Stage R :=
  match target.buffer with
  | (target, .error e) => .ended (.segmented target) (.error e)
  | (target, .ok 0) => .probe target reply true length
  | (target, .ok room) => .payload target reply length room

/-- Go on with the envelope program: to its next read, or to the body once it is complete. -/
def ofProgram (target : Target R) (program : Envelope RpcMessage) : Stage R :=
  match program with
  | .pure reply =>
    if reply.isSuccess then nextRange target reply 0 else .probe target reply false 0
  | .fail e => .ended (.segmented target) (.error e)
  | .panic => .panicked target
  | .read count next => .header target count next []

/-- Payload bytes of the record arrive. -/
def feed : Stage R → Bytes → Stage R
  | .assemble bytes, chunk => .assemble (bytes ++ chunk)
  | .header target count next got, chunk =>
    if count ≤ (got ++ chunk).length then ofProgram target (next (got ++ chunk))
    else .header target count next (got ++ chunk)
  | .payload target reply length _, chunk =>
    match (target.fill chunk).advance chunk.length with
    | (target, .error e) => .ended (.segmented target) (.error e)
    | (target, .ok ()) => nextRange target reply (length + chunk.length)
  | .probe target reply success _, _ => .extra target reply success 1
  | .extra target reply success count, chunk => .extra target reply success (count + chunk.length)
  | .ended sender result, _ => .ended sender result
  | .panicked target, _ => .panicked target

end Stage

/-- The receive of one record for a registered call. -/
structure Receive (R : Type) where
  cursor : RecordReader
  stage : Stage R

/-- The state of a read of the record into storage of length `wants`, with the result in case the
record ends there. -/
def RecordReader.awaitRead {ρ : Type} (cursor : RecordReader) (wants : ℕ)
    (atEnd : Except RuntimeError ρ) : Poll (Option (Except RuntimeError ρ)) :=
  match cursor.poll wants with
  | .done => .ready (some atEnd)
  | .failed e => .ready (some (.error e))
  | .await count => .await count

namespace Receive

variable {R : Type} [ReplyReceiver R]

/-- The receive once the transaction id has been read. -/
def start (cursor : RecordReader) (xid : Bytes) : ResponseSender R → Receive R
  | .buffered => ⟨cursor, .assemble xid⟩
  | .segmented target => ⟨cursor, Stage.ofProgram target (replyHeader xid)⟩

/-- Where the receive stands; a result of `none` is a panic. -/
def poll (r : Receive R) : Poll (Option (Except RuntimeError (RpcMessage × ℕ))) :=
  match r.stage.pending with
  | some (wants, atEnd) => r.cursor.awaitRead wants atEnd
  | none => .ready r.stage.outcome

/-- The stream answers the pending read. -/
def resume (r : Receive R) (result : ReadResult IoError) : Receive R :=
  match r.cursor.resume result with
  | (cursor, .more) => { r with cursor := cursor }
  | (cursor, .failed e) => ⟨cursor, .ended r.stage.sender (.error e)⟩
  | (cursor, .payload chunk) => ⟨cursor, r.stage.feed chunk⟩

end Receive

/-- What a segmented call is told: a reply longer than its destination is an error. -/
def segmentedResult (received : Except RuntimeError (RpcMessage × ℕ)) :
    Except RuntimeError RpcMessage :=
  match received with
  | .ok (header, length) =>
    if length ≠ usizeMax then .ok header
    else .error (.transport "RPC reply exceeds caller buffer capacity")
  | .error e => .error e

end OncRpc
