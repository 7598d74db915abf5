import OncRpc.Wire.Message

/-!
# Encoding and decoding RPC messages

`RpcMessage.encode` appends the fields of a message to an output buffer; `RpcMessage.decode` reads
them back from an input cursor.  Both follow the layout of the source function by function: the
encoder threads the output, the decoder is a `Parser` whose state is the unread input.

Every variable-length field is an authentication body of at most `maxAuthBytes` bytes, padded with
zeros to a multiple of four.  A call and a successful reply end in a payload that runs to the end
of the input; every other branch must end exactly where its fields end (`expectEnd`).
-/

namespace OncRpc

open Foundation

/-- The number of zero bytes that align a field of the given length to four bytes. -/
def xdrPadding (len : ℕ) : ℕ := (4 - len % 4) % 4

/-- Refuse authentication bodies above the limit. -/
def validateAuthLen (len : ℕ) : Except WireError Unit :=
  if len > maxAuthBytes then .error (.authBodyTooLong len) else .ok ()

/-! ## Encoding -/

/-- Append the padding of a field of the given length. -/
def padToXdrAlignment (output : Bytes) (len : ℕ) : Bytes :=
  output ++ List.replicate (xdrPadding len) 0

/-- Build an authentication blob, refusing over-long bodies. -/
def OpaqueAuth.new (flavor : AuthFlavor) (body : Bytes) : Except WireError OpaqueAuth := do
  validateAuthLen body.length
  return ⟨flavor, body⟩

/-- Append an authentication blob. -/
def OpaqueAuth.encodeInto (auth : OpaqueAuth) (output : Bytes) : Except WireError Bytes := do
  validateAuthLen auth.body.length
  let output := output ++ beBytes auth.flavor.number
  let output := output ++ beBytes (UInt32.ofNat auth.body.length)
  let output := output ++ auth.body
  return padToXdrAlignment output auth.body.length

/-- Append a reply body. -/
def encodeReplyBody (reply : ReplyBody) (output : Bytes) : Except WireError Bytes :=
  match reply with
  | .accepted accepted => do
    let output := output ++ beBytes ReplyStat.messageAccepted.number
    let output ← accepted.verifier.encodeInto output
    match accepted.status with
    | .success results => return output ++ beBytes AcceptStat.success.number ++ results
    | .programUnavailable => return output ++ beBytes AcceptStat.programUnavailable.number
    | .programMismatch range =>
      return output ++ beBytes AcceptStat.programMismatch.number ++ beBytes range.low ++
        beBytes range.high
    | .procedureUnavailable => return output ++ beBytes AcceptStat.procedureUnavailable.number
    | .garbageArgs => return output ++ beBytes AcceptStat.garbageArgs.number
    | .systemError => return output ++ beBytes AcceptStat.systemError.number
  | .denied rejected =>
    let output := output ++ beBytes ReplyStat.messageDenied.number
    match rejected with
    | .rpcMismatch range =>
      return output ++ beBytes RejectStat.rpcMismatch.number ++ beBytes range.low ++
        beBytes range.high
    | .authError stat =>
      return output ++ beBytes RejectStat.authError.number ++ beBytes stat.number

/-- The bytes of a message. -/
def RpcMessage.encode (m : RpcMessage) : Except WireError Bytes :=
  let output := beBytes m.xid
  match m.body with
  | .call call => do
    let output := output ++ beBytes MessageType.call.number
    let output := output ++ beBytes call.rpcVersion
    let output := output ++ beBytes call.program.program
    let output := output ++ beBytes call.program.version
    let output := output ++ beBytes call.procedure
    let output ← call.credentials.encodeInto output
    let output ← call.verifier.encodeInto output
    return output ++ call.payload
  | .reply reply => encodeReplyBody reply (output ++ beBytes MessageType.reply.number)

/-! ## Decoding -/

/-- Read one word. -/
def readU32 : Parser WireError UInt32 := fun input =>
  if input.length < 4 then .error (.unexpectedEof 4 input.length)
  else .ok (wordOf input, input.drop 4)

/-- Read a field of the given length and its padding, which must be zero. -/
def readOpaque (len : ℕ) : Parser WireError Bytes := fun input =>
  if input.length < len then .error (.unexpectedEof len input.length)
  else
    let body := input.take len
    let input := input.drop len
    let padding := xdrPadding len
    if input.length < padding then .error (.unexpectedEof padding input.length)
    else if (input.take padding).any (· != 0) then .error .nonZeroXdrPadding
    else .ok (body, input.drop padding)

/-- Succeed only at the end of the input. -/
def expectEnd {α : Type} (value : α) : Parser WireError α := fun input =>
  if input.isEmpty then .ok (value, input) else .error (.trailingBytes input.length)

/-- Take the unread input as a payload. -/
def readPayload : Parser WireError Bytes := fun input => .ok (input, [])

/-- Run a fallible conversion inside a parser. -/
def convert {α : Type} (result : Except WireError α) : Parser WireError α := fun input =>
  result.map (·, input)

/-- Read an authentication blob. -/
def OpaqueAuth.decode : Parser WireError OpaqueAuth := do
  let flavor := AuthFlavor.ofNumber (← readU32)
  let bodyLen := (← readU32).toNat
  convert (validateAuthLen bodyLen)
  let body ← readOpaque bodyLen
  return ⟨flavor, body⟩

/-- Read a version range. -/
def readVersionRange : Parser WireError VersionRange := do
  let low ← readU32
  let high ← readU32
  return ⟨low, high⟩

/-- Read the body of a call. -/
def decodeCallBody : Parser WireError CallBody := do
  let rpcVersion ← readU32
  if rpcVersion ≠ rpcVersion2 then throw (.unsupportedRpcVersion rpcVersion)
  else do
    let program ← readU32
    let version ← readU32
    let procedure ← readU32
    let credentials ← OpaqueAuth.decode
    let verifier ← OpaqueAuth.decode
    let payload ← readPayload
    return ⟨rpcVersion, ⟨program, version⟩, procedure, credentials, verifier, payload⟩

/-- Read the status of an accepted reply and what follows it. -/
def decodeAcceptedStatus (stat : AcceptStat) : Parser WireError AcceptedStatus :=
  match stat with
  | .success => do
    let payload ← readPayload
    return .success payload
  | .programUnavailable => expectEnd .programUnavailable
  | .programMismatch => do
    let range ← readVersionRange
    expectEnd (.programMismatch range)
  | .procedureUnavailable => expectEnd .procedureUnavailable
  | .garbageArgs => expectEnd .garbageArgs
  | .systemError => expectEnd .systemError

/-- Read an accepted reply. -/
def decodeAcceptedReply : Parser WireError AcceptedReply := do
  let verifier ← OpaqueAuth.decode
  let stat ← convert (AcceptStat.tryFrom (← readU32))
  let status ← decodeAcceptedStatus stat
  return ⟨verifier, status⟩

/-- Read a denied reply. -/
def decodeRejectedReply : Parser WireError RejectedReply := do
  match ← convert (RejectStat.tryFrom (← readU32)) with
  | .rpcMismatch => do
    let range ← readVersionRange
    expectEnd (.rpcMismatch range)
  | .authError => do
    let stat := AuthStat.ofNumber (← readU32)
    expectEnd (.authError stat)

/-- Read the body of a reply. -/
def decodeReplyBody : Parser WireError ReplyBody := do
  match ← convert (ReplyStat.tryFrom (← readU32)) with
  | .messageAccepted => ReplyBody.accepted <$> decodeAcceptedReply
  | .messageDenied => ReplyBody.denied <$> decodeRejectedReply

/-- Read the body of a message of the given type. -/
def decodeMessageBody (messageType : MessageType) : Parser WireError MessageBody :=
  match messageType with
  | .call => MessageBody.call <$> decodeCallBody
  | .reply => MessageBody.reply <$> decodeReplyBody

/-- Read a message from the input cursor. -/
def RpcMessage.parse : Parser WireError RpcMessage := do
  let xid ← readU32
  let messageType ← convert (MessageType.tryFrom (← readU32))
  let body ← decodeMessageBody messageType
  return ⟨xid, body⟩

/-- The message a byte string encodes. -/
def RpcMessage.decode (input : Bytes) : Except WireError RpcMessage :=
  (RpcMessage.parse input).map Prod.fst

end OncRpc
