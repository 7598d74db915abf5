import OncRpc.Record.Agreement
import OncRpc.Record.Fragment

/-!
# The STARTTLS probe

A client that wants to talk TLS first sends a call of procedure zero with the `AUTH_TLS` flavor in
the clear.  A server that can upgrade answers with an empty success whose verifier spells
`STARTTLS`, and the handshake follows on the same stream.  This module has the probe of the client,
the replies of the server, and the two ends together.
-/

namespace OncRpc

open Foundation

/-! ## The functions of the source -/

/-- The number of the `AUTH_TLS` flavor. -/
def authTlsValue : UInt32 := 7

/-- `STARTTLS` in ASCII. -/
def startTlsToken : Bytes := [83, 84, 65, 82, 84, 84, 76, 83]

example : startTlsToken = "STARTTLS".toUTF8.toList := by decide +kernel

/-- The limits on the reply to a probe. -/
def startTlsProbeLimits : RecordLimits where
  maxRecordBytes := 4096
  maxFragments := 16

/-- The errors of the TLS transports. -/
inductive TlsError where
  | runtime (error : RuntimeError)
  | handshake (text : String)
  | startTlsRejected
  | invalidStartTlsReply
  deriving DecidableEq

/-- The call a client probes with. -/
def startTlsRequest (program : ProgramVersion) : Except RuntimeError RpcMessage := do
  let credentials ← (OpaqueAuth.new (.unknown authTlsValue) []).mapError .wire
  return ⟨1, .call ⟨rpcVersion2, program, 0, credentials, .none, []⟩⟩

/-- The check of the reply to a probe. -/
def validateStartTlsReply (reply : RpcMessage) (expectedXid : Xid) : Except TlsError Unit :=
  if reply.xid ≠ expectedXid then .error .invalidStartTlsReply
  else match reply.body with
  | .reply (.accepted ⟨verifier, .success payload⟩) =>
    if verifier.flavor = .none ∧ verifier.body = startTlsToken ∧ payload = [] then .ok ()
    else .error .invalidStartTlsReply
  | .reply (.denied (.authError _)) => .error .startTlsRejected
  | _ => .error .invalidStartTlsReply

/-- The probe: `sent` is what comes of writing the request, `stream` what the server sends.  The
second component is the stream afterwards. -/
def performStartTlsProbe (program : ProgramVersion) (sent : Except IoError Unit) (stream : Bytes) :
    Except TlsError Unit × Bytes :=
  match startTlsRequest program with
  | .error error => (.error (.runtime error), stream)
  | .ok request =>
    match writeRpcMessage request, sent with
    | .error error, _ => (.error (.runtime error), stream)
    | .ok _, .error error => (.error (.runtime (.transport error.text)), stream)
    | .ok _, .ok () =>
      match readRpcMessageWithLimits startTlsProbeLimits stream with
      | (.error .connectionClosed, stream) => (.error .startTlsRejected, stream)
      | (.error error, stream) => (.error (.runtime error), stream)
      | (.ok reply, stream) => (validateStartTlsReply reply request.xid, stream)

/-- What a call with the `AUTH_TLS` flavor asks for. -/
inductive AuthTlsRequest where
  | probe
  | invalid
  deriving DecidableEq

/-- Whether a message is a probe, or has the flavor of one. -/
def authTlsRequest (message : RpcMessage) : Option AuthTlsRequest :=
  match message.body with
  | .reply _ => none
  | .call call =>
    if call.credentials.flavor ≠ .unknown authTlsValue then none
    else if call.procedure = 0 ∧ call.credentials.body = [] ∧ call.verifier = .none then
      some .probe
    else some .invalid

/-- The reply to a probe. -/
def startTlsOkReply (xid : Xid) : Except RuntimeError RpcMessage := do
  let verifier ← (OpaqueAuth.new .none startTlsToken).mapError .wire
  return ⟨xid, .reply (.accepted ⟨verifier, .success []⟩)⟩

/-- The reply to anything else with the flavor of a probe. -/
def authTlsBadCredReply (xid : Xid) : RpcMessage :=
  ⟨xid, .reply (.denied (.authError .badCred))⟩

/-! ## What the client accepts -/

/-- A positive answer to the probe with the given XID: an accepted success without payload whose
verifier is `AUTH_NONE` with `STARTTLS` for its body. -/
def StartsTls (xid : Xid) (reply : RpcMessage) : Prop :=
  reply.xid = xid ∧ ∃ verifier payload,
    reply.body = .reply (.accepted ⟨verifier, .success payload⟩) ∧
      verifier.flavor = .none ∧ verifier.body = startTlsToken ∧ payload = []

theorem startTlsProbeLimits_valid : startTlsProbeLimits.Valid := by
  unfold RecordLimits.Valid
  decide

theorem startTlsRequest_eq (program : ProgramVersion) :
    startTlsRequest program =
      .ok ⟨1, .call ⟨rpcVersion2, program, 0, ⟨.unknown authTlsValue, []⟩, .none, []⟩⟩ := rfl

theorem startTlsOkReply_eq (xid : Xid) :
    startTlsOkReply xid = .ok ⟨xid, .reply (.accepted ⟨⟨.none, startTlsToken⟩, .success []⟩)⟩ := rfl

/-- The check of the reply passes exactly on positive answers. -/
theorem validateStartTlsReply_eq_ok_iff (reply : RpcMessage) (xid : Xid) :
    validateStartTlsReply reply xid = .ok () ↔ StartsTls xid reply := by
  unfold validateStartTlsReply StartsTls
  constructor
  · intro h
    split_ifs at h with hxid
    refine ⟨not_not.mp hxid, ?_⟩
    split at h
    · next verifier payload hbody =>
      split_ifs at h with haccept
      exact ⟨verifier, payload, hbody, haccept⟩
    · cases h
    · cases h
  · rintro ⟨hxid, verifier, payload, hbody, haccept⟩
    rw [if_neg (not_not.mpr hxid), hbody]
    exact if_pos haccept

/-- A probe whose request was written reads one reply and checks it. -/
theorem performStartTlsProbe_sent (program : ProgramVersion) (stream : Bytes) :
    performStartTlsProbe program (.ok ()) stream =
      match readRpcMessageWithLimits startTlsProbeLimits stream with
      | (.error .connectionClosed, stream) => (.error .startTlsRejected, stream)
      | (.error error, stream) => (.error (.runtime error), stream)
      | (.ok reply, stream) => (validateStartTlsReply reply 1, stream) := by
  have hfits : RpcMessage.Fits
      ⟨1, .call ⟨rpcVersion2, program, 0, ⟨.unknown authTlsValue, []⟩, .none, []⟩⟩ :=
    ⟨Nat.zero_le _, Nat.zero_le _⟩
  obtain ⟨writes, r, hwrites, -, -⟩ := writeRpcMessage_eq hfits
  unfold performStartTlsProbe
  rw [startTlsRequest_eq]
  simp only [hwrites]

/-- A probe that succeeds has read a record within the limits that holds a positive answer, and has
left exactly what follows the record. -/
theorem record_of_performStartTlsProbe {program : ProgramVersion} {stream : Bytes}
    (h : (performStartTlsProbe program (.ok ()) stream).1 = .ok ()) :
    ∃ r : Record, stream = r.bytes ++ (performStartTlsProbe program (.ok ()) stream).2 ∧
      r.Within startTlsProbeLimits ∧ ∃ reply, RpcMessage.decode r.data = .ok reply ∧
        StartsTls 1 reply := by
  obtain ⟨result, left, houtcome, hread⟩ :=
    readRpcMessageWithLimits_outcome startTlsProbeLimits_valid stream
  rw [performStartTlsProbe_sent, hread] at h ⊢
  split at h
  · cases h
  · cases h
  · next reply stream' heq =>
    obtain ⟨hreply, rfl⟩ := Prod.mk.inj heq
    cases houtcome with
    | complete r _ hwithin hinput =>
      refine ⟨r, hinput, hwithin, reply, ?_, (validateStartTlsReply_eq_ok_iff reply 1).mp h⟩
      exact decodeRecord_eq_ok_iff.mp hreply
    | overLimit => cases hreply
    | tooMany => cases hreply
    | truncated => cases hreply

/-- A probe succeeds on a record within the limits that holds a positive answer, and leaves what
follows the record. -/
theorem performStartTlsProbe_of_record (program : ProgramVersion) {r : Record} (rest : Bytes)
    {reply : RpcMessage} (hwithin : r.Within startTlsProbeLimits)
    (hdecode : RpcMessage.decode r.data = .ok reply) (hreply : StartsTls 1 reply) :
    performStartTlsProbe program (.ok ()) (r.bytes ++ rest) = (.ok (), rest) := by
  obtain ⟨result, left, houtcome, hread⟩ :=
    readRpcMessageWithLimits_outcome startTlsProbeLimits_valid (r.bytes ++ rest)
  rcases houtcome.on_record with ⟨-, rfl, rfl⟩ | ⟨error, taken, hexceeds, -, -⟩
  · have hok : decodeRecord r.data = .ok reply := decodeRecord_eq_ok_iff.mpr hdecode
    rw [performStartTlsProbe_sent, hread]
    simp only [Except.bind, hok]
    rw [(validateStartTlsReply_eq_ok_iff reply 1).mpr hreply]
  · exact absurd hwithin hexceeds.not_within

/-! ## The two ends -/

theorem AuthFlavor.isCanonical_none : AuthFlavor.none.IsCanonical := by
  rintro value ⟨⟩

theorem AuthFlavor.isCanonical_authTls : (AuthFlavor.unknown authTlsValue).IsCanonical := by
  rintro value ⟨⟩
  unfold AuthFlavor.IsNamed
  decide

/-- A server recognises the probe in what a client writes. -/
theorem startTlsRequest_recognised (program : ProgramVersion) :
    ∃ request writes, startTlsRequest program = .ok request ∧
      writeRpcMessage request = .ok writes ∧ request.xid = 1 ∧
      authTlsRequest request = some .probe ∧
      ∀ rest, tryDecodeMessageFromBuffer (writes.flatten ++ rest) = (.ok (some request), rest) := by
  have hcanonical : (RpcMessage.mk 1 (.call ⟨rpcVersion2, program, 0,
      ⟨.unknown authTlsValue, []⟩, .none, []⟩)).IsCanonical :=
    ⟨rfl, AuthFlavor.isCanonical_authTls, AuthFlavor.isCanonical_none⟩
  have hfits : (RpcMessage.mk 1 (.call ⟨rpcVersion2, program, 0,
      ⟨.unknown authTlsValue, []⟩, .none, []⟩)).Fits :=
    ⟨Nat.zero_le _, Nat.zero_le _⟩
  obtain ⟨writes, r, hwrites, hbytes, hencode⟩ := writeRpcMessage_eq hfits
  have hdecode := (RpcMessage.decode_encode_inverse.1 r.data _).mpr ⟨hcanonical, hencode⟩
  refine ⟨_, writes, startTlsRequest_eq program, hwrites, rfl, rfl, ?_⟩
  intro rest
  rw [hbytes, tryDecodeMessageFromBuffer_record, decodeRecord_eq_ok_iff.mpr hdecode]
  rfl

/-- The record a server writes for a positive answer is within the limits of the probe, and holds
that answer. -/
theorem startTlsOkReply_record (xid : Xid) :
    ∃ reply writes, ∃ r : Record, startTlsOkReply xid = .ok reply ∧
      writeRpcMessage reply = .ok writes ∧ writes.flatten = r.bytes ∧
      r.Within startTlsProbeLimits ∧ RpcMessage.decode r.data = .ok reply ∧
        StartsTls xid reply := by
  have hreply : StartsTls xid ⟨xid, .reply (.accepted ⟨⟨.none, startTlsToken⟩, .success []⟩)⟩ :=
    ⟨rfl, _, _, rfl, rfl, rfl, rfl⟩
  have hok := startTlsOkReply_eq xid
  have hcanonical : (RpcMessage.mk xid
      (.reply (.accepted ⟨⟨.none, startTlsToken⟩, .success []⟩))).IsCanonical :=
    AuthFlavor.isCanonical_none
  have hfits : (RpcMessage.mk xid
      (.reply (.accepted ⟨⟨.none, startTlsToken⟩, .success []⟩))).Fits := by
    simp [RpcMessage.Fits, ReplyBody.Fits, OpaqueAuth.Fits, startTlsToken, maxAuthBytes]
  have hlength : (RpcMessage.mk xid
      (.reply (.accepted ⟨⟨.none, startTlsToken⟩, .success []⟩))).wire.length = 32 := by
    simp [RpcMessage.wire, ReplyBody.wire, OpaqueAuth.wire, AcceptedStatus.wire,
      AcceptedStatus.fields, startTlsToken, xdrPadding]
  generalize RpcMessage.mk xid _ = reply at hreply hok hcanonical hfits hlength
  have hsmall : FragmentFits reply.wire := by
    rw [FragmentFits, hlength]
    decide
  obtain ⟨writes, hwrites, hbytes⟩ := writeRecordPayload_of_fits hsmall
  refine ⟨reply, writes, .single reply.wire hsmall, hok, ?_, hbytes, ?_, ?_, hreply⟩
  · rw [writeRpcMessage, (reply.encode_eq_ok_iff reply.wire).mpr ⟨hfits, rfl⟩]
    exact hwrites
  · rw [Record.Within, Record.bytes_length]
    simp [Record.single, Record.fragments, Record.data, hlength, startTlsProbeLimits]
  · have hdata : (Record.single reply.wire hsmall).data = reply.wire := by
      simp [Record.single, Record.data]
    rw [hdata]
    exact (RpcMessage.decode_eq_ok_iff_wire reply.wire reply).mpr ⟨hcanonical, hfits, rfl⟩

/-- The probe succeeds exactly when the stream starts with a record within its limits that holds a
positive answer to it, however the record is cut into fragments; the stream then stands right after
that record.  A probe that could not be written does not succeed.  A server recognises the probe,
and the record it answers with makes the probe succeed. -/
theorem startTls_probe (program : ProgramVersion) :
    (∀ stream : Bytes, (performStartTlsProbe program (.ok ()) stream).1 = .ok () ↔
      ∃ (r : Record) (rest : Bytes), stream = r.bytes ++ rest ∧ r.Within startTlsProbeLimits ∧
        ∃ reply, RpcMessage.decode r.data = .ok reply ∧ StartsTls 1 reply) ∧
    (∀ stream : Bytes, (performStartTlsProbe program (.ok ()) stream).1 = .ok () →
      ∀ (r : Record) (rest : Bytes), stream = r.bytes ++ rest →
        (performStartTlsProbe program (.ok ()) stream).2 = rest) ∧
    (∀ error stream, (performStartTlsProbe program (.error error) stream).1 ≠ .ok ()) ∧
    ∃ request writes reply answer, startTlsRequest program = .ok request ∧
      writeRpcMessage request = .ok writes ∧
      (∀ rest, tryDecodeMessageFromBuffer (writes.flatten ++ rest) = (.ok (some request), rest)) ∧
      authTlsRequest request = some .probe ∧ startTlsOkReply request.xid = .ok reply ∧
      writeRpcMessage reply = .ok answer ∧
      ∀ rest, performStartTlsProbe program (.ok ()) (answer.flatten ++ rest) = (.ok (), rest) := by
  refine ⟨?_, ?_, ?_, ?_⟩
  · intro stream
    constructor
    · intro h
      obtain ⟨r, hrecord⟩ := record_of_performStartTlsProbe h
      exact ⟨r, _, hrecord⟩
    · rintro ⟨r, rest, rfl, hwithin, reply, hdecode, hreply⟩
      rw [performStartTlsProbe_of_record program rest hwithin hdecode hreply]
  · rintro stream h r rest rfl
    obtain ⟨r', hinput, -⟩ := record_of_performStartTlsProbe h
    exact (Record.bytes_append_inj hinput).2.symm
  · intro error stream
    obtain ⟨request, writes, hrequest, hwrites, -⟩ := startTlsRequest_recognised program
    unfold performStartTlsProbe
    rw [hrequest]
    simp only [hwrites]
    intro h
    cases h
  · obtain ⟨request, writes, hrequest, hwrites, hxid, hprobe, hdecode⟩ :=
      startTlsRequest_recognised program
    obtain ⟨reply, answer, r, hreply, hanswer, hbytes, hwithin, hrecord, hstarts⟩ :=
      startTlsOkReply_record request.xid
    refine ⟨request, writes, reply, answer, hrequest, hwrites, hdecode, hprobe, hreply, hanswer, ?_⟩
    intro rest
    rw [hbytes]
    exact performStartTlsProbe_of_record program rest hwithin hrecord (hxid ▸ hstarts)

end OncRpc
