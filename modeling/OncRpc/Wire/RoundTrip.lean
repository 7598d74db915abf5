import OncRpc.Wire.Format

/-!
# The codec round trip

A message is a header followed by a payload that may be empty, and the headers form a prefix-free
code (`RpcMessage.header_wire_append_inj`).  From this and the format lemmas follows
`RpcMessage.decode_encode_inverse`: decoding and encoding are inverse to each other on canonical
messages, and inputs with a malformed field, listed by their layout in `Malformed`, are refused.
-/

namespace OncRpc

open Foundation Foundation.Parser

/-! ## Header and payload -/

/-- The status without its result bytes. -/
def AcceptedStatus.header : AcceptedStatus → AcceptedStatus
  | .success _ => .success []
  | status => status

/-- The message without the payload that may end it. -/
def RpcMessage.header (m : RpcMessage) : RpcMessage :=
  match m.body with
  | .call call => { m with body := .call { call with payload := [] } }
  | .reply (.accepted reply) =>
    { m with body := .reply (.accepted { reply with status := reply.status.header }) }
  | .reply (.denied reply) => { m with body := .reply (.denied reply) }

/-- The message may end in a payload. -/
def RpcMessage.HasPayload (m : RpcMessage) : Prop :=
  match m.body with
  | .call _ => True
  | .reply (.accepted reply) => reply.status.stat = .success
  | .reply (.denied _) => False

/-- The payload that ends the message, empty where there is none. -/
def RpcMessage.payload (m : RpcMessage) : Bytes :=
  match m.body with
  | .call call => call.payload
  | .reply (.accepted ⟨_, .success results⟩) => results
  | .reply _ => []

/-- A message is its header followed by its payload. -/
theorem RpcMessage.wire_eq_header_append (m : RpcMessage) :
    m.wire = m.header.wire ++ m.payload := by
  obtain ⟨xid, body⟩ := m
  match body with
  | .call call => simp [RpcMessage.wire, RpcMessage.header, RpcMessage.payload, CallBody.wire]
  | .reply (.accepted ⟨verifier, status⟩) =>
    cases status <;> simp [RpcMessage.wire, RpcMessage.header, RpcMessage.payload, ReplyBody.wire,
      AcceptedStatus.wire, AcceptedStatus.header, AcceptedStatus.stat, AcceptedStatus.fields]
  | .reply (.denied reply) =>
    simp [RpcMessage.wire, RpcMessage.header, RpcMessage.payload]

/-- Taking the payload away leaves the blobs alone. -/
theorem RpcMessage.header_fits (m : RpcMessage) : m.header.Fits ↔ m.Fits := by
  obtain ⟨xid, body⟩ := m
  match body with
  | .call call => rfl
  | .reply (.accepted ⟨verifier, status⟩) => cases status <;> rfl
  | .reply (.denied reply) => rfl

/-- Only a message that may end in a payload has payload bytes. -/
theorem RpcMessage.payload_eq_nil {m : RpcMessage} (h : ¬ m.HasPayload) : m.payload = [] := by
  obtain ⟨xid, body⟩ := m
  match body with
  | .call call => exact absurd trivial h
  | .reply (.accepted ⟨verifier, status⟩) => cases status <;> first | rfl | exact absurd rfl h
  | .reply (.denied reply) => rfl

/-- The fields of a blob that fits determine it and what follows. -/
theorem OpaqueAuth.wire_append_inj {auth other : OpaqueAuth} (hf : auth.Fits)
    (hg : other.Fits) {s t : Bytes} (h : auth.wire ++ s = other.wire ++ t) :
    auth.flavor.number = other.flavor.number ∧ auth.body = other.body ∧ s = t := by
  simp only [OpaqueAuth.wire, List.append_assoc, beBytes_append_inj] at h
  obtain ⟨hn, hl, h⟩ := h
  have hlen : auth.body.length = other.body.length := by
    have := congrArg UInt32.toNat hl
    simp only [UInt32.toNat_ofNat'] at this
    unfold OpaqueAuth.Fits maxAuthBytes at hf hg
    omega
  obtain ⟨hb, h⟩ := List.append_inj h hlen
  rw [hlen] at h
  exact ⟨hn, hb, List.append_cancel_left h⟩

/-- Two accept states with one number are one. -/
theorem AcceptStat.number_injective : Function.Injective AcceptStat.number := by
  intro a b
  cases a <;> cases b <;> simp [AcceptStat.number]

/-- Two reject states with one number are one. -/
theorem RejectStat.number_injective : Function.Injective RejectStat.number := by
  intro a b
  cases a <;> cases b <;> simp [RejectStat.number]

/-- The header of a status has its state. -/
@[simp] theorem AcceptedStatus.header_stat (status : AcceptedStatus) :
    status.header.stat = status.stat := by
  cases status <;> rfl

/-- Accepted statuses with the same discriminant have fields of the same length, result bytes
apart. -/
theorem AcceptedStatus.header_fields_length_eq {a b : AcceptedStatus} (h : a.stat = b.stat) :
    a.header.fields.length = b.header.fields.length := by
  cases a <;> cases b <;>
    simp_all [AcceptedStatus.stat, AcceptedStatus.header, AcceptedStatus.fields]

/-- Denied replies with the same discriminant have fields of the same length. -/
theorem RejectedReply.fields_length_eq {a b : RejectedReply} (h : a.stat = b.stat) :
    a.fields.length = b.fields.length := by
  cases a <;> cases b <;> simp_all [RejectedReply.stat, RejectedReply.fields]

/-- The format is prefix-free up to the payload: two messages with a common extension have the
same kind of end, and what follows their headers agrees. -/
theorem RpcMessage.header_wire_append_inj {m m' : RpcMessage} (hf : m.Fits) (hg : m'.Fits)
    {s t : Bytes} (h : m.header.wire ++ s = m'.header.wire ++ t) :
    s = t ∧ (m.HasPayload ↔ m'.HasPayload) := by
  obtain ⟨xid, body⟩ := m
  obtain ⟨xid', body'⟩ := m'
  match body, body' with
  | .call call, .call call' =>
    simp only [RpcMessage.header, RpcMessage.wire, CallBody.wire, List.append_assoc,
      beBytes_append_inj, List.nil_append] at h
    obtain ⟨-, -, -, -, -, -, h⟩ := h
    obtain ⟨-, -, h⟩ := OpaqueAuth.wire_append_inj hf.1 hg.1 h
    obtain ⟨-, -, h⟩ := OpaqueAuth.wire_append_inj hf.2 hg.2 h
    exact ⟨h, Iff.rfl⟩
  | .reply (.accepted a), .reply (.accepted b) =>
    simp only [RpcMessage.header, RpcMessage.wire, ReplyBody.wire, AcceptedStatus.wire,
      List.append_assoc, beBytes_append_inj, true_and] at h
    obtain ⟨-, -, h⟩ := OpaqueAuth.wire_append_inj hf hg h.2
    obtain ⟨hstat, h⟩ := beBytes_append_inj.mp h
    rw [AcceptedStatus.header_stat, AcceptedStatus.header_stat] at hstat
    have hstat := AcceptStat.number_injective hstat
    refine ⟨(List.append_inj h (AcceptedStatus.header_fields_length_eq hstat)).2, ?_⟩
    simp only [RpcMessage.HasPayload, hstat]
  | .reply (.denied a), .reply (.denied b) =>
    simp only [RpcMessage.header, RpcMessage.wire, ReplyBody.wire, RejectedReply.wire,
      List.append_assoc, beBytes_append_inj, true_and] at h
    have hstat := RejectStat.number_injective h.2.1
    exact ⟨(List.append_inj h.2.2 (RejectedReply.fields_length_eq hstat)).2, Iff.rfl⟩
  | .call call, .reply (.accepted b) | .call call, .reply (.denied b)
  | .reply (.accepted a), .call call' | .reply (.denied a), .call call'
  | .reply (.accepted a), .reply (.denied b) | .reply (.denied a), .reply (.accepted b) =>
    simp [RpcMessage.header, RpcMessage.wire, ReplyBody.wire, MessageType.number,
      ReplyStat.number] at h

/-! ## Malformed inputs -/

/-- The bytes in front of an authentication blob. -/
inductive BeforeAuth : Bytes → Prop
  /-- The credentials of a call. -/
  | credentials (xid program version procedure : UInt32) :
    BeforeAuth (beBytes xid ++ (beBytes MessageType.call.number ++ (beBytes rpcVersion2 ++
      (beBytes program ++ (beBytes version ++ beBytes procedure)))))
  /-- The verifier of a call. -/
  | verifier (xid program version procedure : UInt32) (credentials : OpaqueAuth)
    (hf : credentials.Fits) :
    BeforeAuth (beBytes xid ++ (beBytes MessageType.call.number ++ (beBytes rpcVersion2 ++
      (beBytes program ++ (beBytes version ++ (beBytes procedure ++ credentials.wire))))))
  /-- The verifier of an accepted reply. -/
  | accepted (xid : UInt32) :
    BeforeAuth (beBytes xid ++ (beBytes MessageType.reply.number ++
      beBytes ReplyStat.messageAccepted.number))

/-- Inputs with one malformed field. -/
inductive Malformed : Bytes → Prop
  /-- The input stops inside a field: it is a proper prefix of the header of a message. -/
  | truncated (m : RpcMessage) (hc : m.IsCanonical) (hf : m.Fits) (n : ℕ)
    (hn : n < m.header.wire.length) : Malformed (m.header.wire.take n)
  /-- An authentication body above the limit. -/
  | authTooLong (front : Bytes) (hb : BeforeAuth front) (flavor length : UInt32)
    (hlen : maxAuthBytes < length.toNat) (rest : Bytes) :
    Malformed (front ++ (beBytes flavor ++ (beBytes length ++ rest)))
  /-- An authentication body with nonzero padding. -/
  | authPadding (front : Bytes) (hb : BeforeAuth front) (flavor : UInt32) (body pad : Bytes)
    (hbody : body.length ≤ maxAuthBytes) (hpad : pad.length = xdrPadding body.length)
    (hne : pad ≠ List.replicate pad.length 0) (rest : Bytes) :
    Malformed (front ++ (beBytes flavor ++ (beBytes (UInt32.ofNat body.length) ++
      (body ++ (pad ++ rest)))))
  /-- An unknown message type. -/
  | messageType (xid value : UInt32) (hv : ∀ type : MessageType, value ≠ type.number)
    (rest : Bytes) : Malformed (beBytes xid ++ (beBytes value ++ rest))
  /-- An unknown reply status. -/
  | replyStat (xid value : UInt32) (hv : ∀ stat : ReplyStat, value ≠ stat.number)
    (rest : Bytes) :
    Malformed (beBytes xid ++ (beBytes MessageType.reply.number ++ (beBytes value ++ rest)))
  /-- An unknown accept status. -/
  | acceptStat (xid : UInt32) (verifier : OpaqueAuth) (hf : verifier.Fits) (value : UInt32)
    (hv : ∀ stat : AcceptStat, value ≠ stat.number) (rest : Bytes) :
    Malformed (beBytes xid ++ (beBytes MessageType.reply.number ++
      (beBytes ReplyStat.messageAccepted.number ++ (verifier.wire ++ (beBytes value ++ rest)))))
  /-- An unknown reject status. -/
  | rejectStat (xid value : UInt32) (hv : ∀ stat : RejectStat, value ≠ stat.number)
    (rest : Bytes) :
    Malformed (beBytes xid ++ (beBytes MessageType.reply.number ++
      (beBytes ReplyStat.messageDenied.number ++ (beBytes value ++ rest))))
  /-- Bytes after a message that has no payload. -/
  | leftover (m : RpcMessage) (hp : ¬ m.HasPayload) (hf : m.Fits) (extra : Bytes)
    (hne : extra ≠ []) : Malformed (m.wire ++ extra)

/-- Where the layout has a blob, a well-formed message has one. -/
theorem BeforeAuth.exists_auth {front : Bytes} (hb : BeforeAuth front) {m : RpcMessage}
    (hf : m.Fits) {s : Bytes} (h : front ++ s = m.wire) :
    ∃ auth t, auth.Fits ∧ s = OpaqueAuth.wire auth ++ t := by
  obtain ⟨xid', body⟩ := m
  cases hb with
  | credentials xid program version procedure =>
    cases body with
    | call call =>
      simp only [RpcMessage.wire, CallBody.wire, List.append_assoc, beBytes_append_inj] at h
      exact ⟨call.credentials, _, hf.1, h.2.2.2.2.2.2⟩
    | reply reply =>
      simp [RpcMessage.wire, MessageType.number] at h
  | verifier xid program version procedure credentials hc =>
    cases body with
    | call call =>
      simp only [RpcMessage.wire, CallBody.wire, List.append_assoc, beBytes_append_inj] at h
      exact ⟨call.verifier, _, hf.2, (OpaqueAuth.wire_append_inj hc hf.1 h.2.2.2.2.2.2).2.2⟩
    | reply reply =>
      simp [RpcMessage.wire, MessageType.number] at h
  | accepted xid =>
    rcases body with call | reply | reply
    · simp [RpcMessage.wire, MessageType.number] at h
    · simp only [RpcMessage.wire, ReplyBody.wire, List.append_assoc, beBytes_append_inj] at h
      exact ⟨reply.verifier, _, hf, h.2.2.2⟩
    · simp [RpcMessage.wire, ReplyBody.wire, ReplyStat.number] at h

/-- No malformed input is the encoding of a message. -/
theorem Malformed.ne_wire {b : Bytes} (hb : Malformed b) {m : RpcMessage} (hf : m.Fits) :
    b ≠ m.wire := by
  intro h
  cases hb with
  | truncated m' hc' hf' n hn =>
    -- The rest of the header would have to be empty.
    have hcat : m.header.wire ++ (m.payload ++ m'.header.wire.drop n) = m'.header.wire ++ [] := by
      rw [← List.append_assoc, ← RpcMessage.wire_eq_header_append, ← h, List.take_append_drop,
        List.append_nil]
    have hnil := (RpcMessage.header_wire_append_inj hf hf' hcat).1
    have hdrop := (List.append_eq_nil_iff.mp hnil).2
    rw [List.drop_eq_nil_iff] at hdrop
    omega
  | authTooLong front hfront flavor length hlen rest =>
    obtain ⟨auth, t, hauth, heq⟩ := hfront.exists_auth hf h
    simp only [OpaqueAuth.wire, List.append_assoc, beBytes_append_inj] at heq
    have hl := congrArg UInt32.toNat heq.2.1
    rw [UInt32.toNat_ofNat'] at hl
    unfold OpaqueAuth.Fits maxAuthBytes at hauth
    unfold maxAuthBytes at hlen
    omega
  | authPadding front hfront flavor body pad hbody hpad hne rest =>
    obtain ⟨auth, t, hauth, heq⟩ := hfront.exists_auth hf h
    simp only [OpaqueAuth.wire, List.append_assoc, beBytes_append_inj] at heq
    obtain ⟨-, hl, heq⟩ := heq
    have hlen : body.length = auth.body.length := by
      have := congrArg UInt32.toNat hl
      simp only [UInt32.toNat_ofNat'] at this
      unfold OpaqueAuth.Fits maxAuthBytes at hauth
      unfold maxAuthBytes at hbody
      omega
    have hrest := (List.append_inj heq hlen).2
    have hpads := (List.append_inj hrest (by simp [hpad, hlen])).1
    exact hne (by rw [hpads]; simp)
  | messageType xid value hv rest =>
    obtain ⟨xid', body⟩ := m
    cases body with
    | call call =>
      simp only [RpcMessage.wire, beBytes_append_inj] at h
      exact hv .call h.2.1
    | reply reply =>
      simp only [RpcMessage.wire, beBytes_append_inj] at h
      exact hv .reply h.2.1
  | replyStat xid value hv rest =>
    obtain ⟨xid', body⟩ := m
    rcases body with call | reply | reply
    · simp [RpcMessage.wire, MessageType.number] at h
    · simp only [RpcMessage.wire, ReplyBody.wire, beBytes_append_inj] at h
      exact hv .messageAccepted h.2.2.1
    · simp only [RpcMessage.wire, ReplyBody.wire, beBytes_append_inj] at h
      exact hv .messageDenied h.2.2.1
  | acceptStat xid verifier hver value hv rest =>
    obtain ⟨xid', body⟩ := m
    rcases body with call | reply | reply
    · simp [RpcMessage.wire, MessageType.number] at h
    · simp only [RpcMessage.wire, ReplyBody.wire, AcceptedStatus.wire, beBytes_append_inj] at h
      have hrest := (OpaqueAuth.wire_append_inj hver hf h.2.2.2).2.2
      exact hv reply.status.stat (beBytes_append_inj.mp hrest).1
    · simp [RpcMessage.wire, ReplyBody.wire, ReplyStat.number] at h
  | rejectStat xid value hv rest =>
    obtain ⟨xid', body⟩ := m
    rcases body with call | reply | reply
    · simp [RpcMessage.wire, MessageType.number] at h
    · simp [RpcMessage.wire, ReplyBody.wire, ReplyStat.number] at h
    · simp only [RpcMessage.wire, ReplyBody.wire, RejectedReply.wire, beBytes_append_inj] at h
      exact hv reply.stat h.2.2.2.1
  | leftover m' hp hf' extra hne =>
    rw [RpcMessage.wire_eq_header_append m', RpcMessage.wire_eq_header_append m,
      List.append_assoc] at h
    obtain ⟨hrest, hiff⟩ := RpcMessage.header_wire_append_inj hf' hf h
    rw [RpcMessage.payload_eq_nil hp, RpcMessage.payload_eq_nil (fun hm => hp (hiff.mpr hm))]
      at hrest
    exact hne (by simpa using hrest)

/-! ## The codec is a bijection onto its format -/

/-- Decoding and encoding are mutually inverse between the accepted byte strings and the canonical
messages; distinct byte strings decode to distinct messages and malformed ones are refused. -/
theorem RpcMessage.decode_encode_inverse :
    (∀ (b : Bytes) (m : RpcMessage),
      RpcMessage.decode b = .ok m ↔ m.IsCanonical ∧ m.encode = .ok b) ∧
    (∀ (b b' : Bytes) (m : RpcMessage),
      RpcMessage.decode b = .ok m → RpcMessage.decode b' = .ok m → b = b') ∧
    (∀ b : Bytes, Malformed b → ∃ e, RpcMessage.decode b = .error e) := by
  refine ⟨?_, ?_, ?_⟩
  · intro b m
    rw [RpcMessage.decode_eq_ok_iff_wire, RpcMessage.encode_eq_ok_iff]
  · intro b b' m h h'
    rw [RpcMessage.decode_eq_ok_iff_wire] at h h'
    rw [h.2.2, h'.2.2]
  · intro b hb
    cases h : RpcMessage.decode b with
    | error e => exact ⟨e, rfl⟩
    | ok m =>
      obtain ⟨-, hf, hw⟩ := (RpcMessage.decode_eq_ok_iff_wire b m).mp h
      exact absurd hw (hb.ne_wire hf)

/-! ## Bytes after a message without payload -/

/-- Trailing bytes are refused. -/
theorem expectEnd_of_ne_nil {α : Type} (value : α) {extra : Bytes} (h : extra ≠ []) :
    expectEnd value extra = .error (.trailingBytes extra.length) := by
  cases extra with
  | nil => exact absurd rfl h
  | cons b bs => rfl

/-- Bytes behind the fields of a status are refused. -/
theorem decodeAcceptedStatus_trailing {status : AcceptedStatus} (hstat : status.stat ≠ .success)
    {extra : Bytes} (h : extra ≠ []) :
    decodeAcceptedStatus status.stat (status.fields ++ extra) =
      .error (.trailingBytes extra.length) := by
  cases status with
  | success results => exact absurd rfl hstat
  | programMismatch range =>
    have hrange := inverts_readVersionRange.apply_append (x := range) rfl extra
    exact (bind_of_ok hrange).trans (expectEnd_of_ne_nil _ h)
  | programUnavailable => exact expectEnd_of_ne_nil _ h
  | procedureUnavailable => exact expectEnd_of_ne_nil _ h
  | garbageArgs => exact expectEnd_of_ne_nil _ h
  | systemError => exact expectEnd_of_ne_nil _ h

/-- A conversion that succeeds leaves the input alone. -/
theorem convert_of_ok {α : Type} {result : Except WireError α} {x : α} (h : result = .ok x)
    (input : Bytes) : convert result input = .ok (x, input) := by
  rw [h]
  rfl

/-- Bytes behind an accepted reply without results are refused. -/
theorem decodeAcceptedReply_trailing {reply : AcceptedReply}
    (hc : reply.verifier.flavor.IsCanonical) (hf : reply.verifier.Fits)
    (hstat : reply.status.stat ≠ .success) {extra : Bytes} (h : extra ≠ []) :
    decodeAcceptedReply (reply.verifier.wire ++ (reply.status.wire ++ extra)) =
      .error (.trailingBytes extra.length) := by
  unfold decodeAcceptedReply AcceptedStatus.wire
  rw [bind_of_ok (OpaqueAuth.inverts_decode.apply_append ⟨hc, hf, rfl⟩ _), List.append_assoc,
    bind_of_ok (inverts_readU32.apply_append rfl _),
    bind_of_ok (convert_of_ok ((AcceptStat.tryFrom_eq_ok_iff _ _).mpr rfl) _)]
  exact bind_of_error (decodeAcceptedStatus_trailing hstat h)

/-- Bytes behind a rejected reply are refused. -/
theorem decodeRejectedReply_trailing {reply : RejectedReply} {extra : Bytes} (h : extra ≠ []) :
    decodeRejectedReply (reply.wire ++ extra) = .error (.trailingBytes extra.length) := by
  unfold decodeRejectedReply RejectedReply.wire
  rw [List.append_assoc, bind_of_ok (inverts_readU32.apply_append rfl _),
    bind_of_ok (convert_of_ok ((RejectStat.tryFrom_eq_ok_iff _ _).mpr rfl) _)]
  cases reply with
  | rpcMismatch range =>
    have hrange := inverts_readVersionRange.apply_append (x := range) rfl extra
    exact (bind_of_ok hrange).trans (expectEnd_of_ne_nil _ h)
  | authError status =>
    have hword := inverts_readU32.apply_append (x := status.number) rfl extra
    exact (bind_of_ok hword).trans (expectEnd_of_ne_nil _ h)

/-- A message without payload followed by more bytes is refused with their number. -/
theorem RpcMessage.decode_trailing {m : RpcMessage} (hc : m.IsCanonical) (hf : m.Fits)
    (hp : ¬ m.HasPayload) {extra : Bytes} (h : extra ≠ []) :
    RpcMessage.decode (m.wire ++ extra) = .error (.trailingBytes extra.length) := by
  obtain ⟨xid, body⟩ := m
  cases body with
  | call call => exact absurd trivial hp
  | reply reply =>
    have hbody : decodeReplyBody (reply.wire ++ extra) = .error (.trailingBytes extra.length) := by
      unfold decodeReplyBody
      cases reply with
      | accepted reply =>
        rw [ReplyBody.wire, List.append_assoc, List.append_assoc,
          bind_of_ok (inverts_readU32.apply_append rfl _),
          bind_of_ok (convert_of_ok ((ReplyStat.tryFrom_eq_ok_iff _ _).mpr rfl) _)]
        exact map_of_error (decodeAcceptedReply_trailing hc hf hp h) _
      | denied reply =>
        rw [ReplyBody.wire, List.append_assoc, bind_of_ok (inverts_readU32.apply_append rfl _),
          bind_of_ok (convert_of_ok ((ReplyStat.tryFrom_eq_ok_iff _ _).mpr rfl) _)]
        exact map_of_error (decodeRejectedReply_trailing h) _
    have hparse : RpcMessage.parse (RpcMessage.wire ⟨xid, .reply reply⟩ ++ extra) =
        .error (.trailingBytes extra.length) := by
      unfold RpcMessage.parse RpcMessage.wire
      rw [List.append_assoc, List.append_assoc, bind_of_ok (inverts_readU32.apply_append rfl _),
        bind_of_ok (inverts_readU32.apply_append rfl _),
        bind_of_ok (convert_of_ok ((MessageType.tryFrom_eq_ok_iff _ _).mpr rfl) _)]
      exact bind_of_error (map_of_error hbody MessageBody.reply)
    rw [RpcMessage.decode, hparse]
    rfl

end OncRpc
