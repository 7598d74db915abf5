import OncRpc.Wire.Codec

/-!
# The message format

The encoder and the decoder describe the same format.  `RpcMessage.wire` is the plain concatenation
of the fields of a message; the encoder produces exactly it for messages whose authentication
bodies fit (`RpcMessage.encode_eq_ok_iff`), and each decoder reads exactly the concatenation of its
fields (`inverts_*` for decoders that leave a rest, `covers_*` for those that must reach the end of
the input).  Chaining the decoders gives `RpcMessage.decode_eq_ok_iff_wire`: decoding succeeds
exactly on the fields of canonical messages whose blobs fit.
-/

namespace OncRpc

open Foundation Foundation.Parser

/-! ## The bytes of a message -/

/-- The body of the blob is within the limit. -/
def OpaqueAuth.Fits (auth : OpaqueAuth) : Prop := auth.body.length ≤ maxAuthBytes

/-- The fields of an authentication blob in wire order. -/
def OpaqueAuth.wire (auth : OpaqueAuth) : Bytes :=
  beBytes auth.flavor.number ++ (beBytes (UInt32.ofNat auth.body.length) ++
    (auth.body ++ List.replicate (xdrPadding auth.body.length) 0))

/-- The blobs of the reply are within the limit. -/
def ReplyBody.Fits : ReplyBody → Prop
  | .accepted reply => reply.verifier.Fits
  | .denied _ => True

/-- Every authentication blob of the message is within the limit. -/
def RpcMessage.Fits (m : RpcMessage) : Prop :=
  match m.body with
  | .call call => call.credentials.Fits ∧ call.verifier.Fits
  | .reply reply => reply.Fits

/-- The spelling of the rejected authentication status is the canonical one. -/
def RejectedReply.IsCanonical : RejectedReply → Prop
  | .rpcMismatch _ => True
  | .authError status => status.IsCanonical

/-- The blobs and statuses of the reply are canonically spelled. -/
def ReplyBody.IsCanonical : ReplyBody → Prop
  | .accepted reply => reply.verifier.flavor.IsCanonical
  | .denied reply => reply.IsCanonical

/-- A call has the supported RPC version, and no named flavor or status is spelled `unknown`. -/
def RpcMessage.IsCanonical (m : RpcMessage) : Prop :=
  match m.body with
  | .call call => call.rpcVersion = rpcVersion2 ∧ call.credentials.flavor.IsCanonical ∧
      call.verifier.flavor.IsCanonical
  | .reply reply => reply.IsCanonical

/-- The discriminant of an accepted status. -/
def AcceptedStatus.stat : AcceptedStatus → AcceptStat
  | .success _ => .success
  | .programUnavailable => .programUnavailable
  | .programMismatch _ => .programMismatch
  | .procedureUnavailable => .procedureUnavailable
  | .garbageArgs => .garbageArgs
  | .systemError => .systemError

/-- What follows the discriminant of an accepted status. -/
def AcceptedStatus.fields : AcceptedStatus → Bytes
  | .success results => results
  | .programMismatch range => beBytes range.low ++ beBytes range.high
  | _ => []

/-- The fields of an accepted status in wire order. -/
def AcceptedStatus.wire (status : AcceptedStatus) : Bytes :=
  beBytes status.stat.number ++ status.fields

/-- The discriminant of a denied reply. -/
def RejectedReply.stat : RejectedReply → RejectStat
  | .rpcMismatch _ => .rpcMismatch
  | .authError _ => .authError

/-- What follows the discriminant of a denied reply. -/
def RejectedReply.fields : RejectedReply → Bytes
  | .rpcMismatch range => beBytes range.low ++ beBytes range.high
  | .authError status => beBytes status.number

/-- The fields of a denied reply in wire order. -/
def RejectedReply.wire (reply : RejectedReply) : Bytes :=
  beBytes reply.stat.number ++ reply.fields

/-- The fields of a call in wire order. -/
def CallBody.wire (call : CallBody) : Bytes :=
  beBytes call.rpcVersion ++ (beBytes call.program.program ++ (beBytes call.program.version ++
    (beBytes call.procedure ++ (call.credentials.wire ++ (call.verifier.wire ++ call.payload)))))

/-- The fields of a reply in wire order. -/
def ReplyBody.wire : ReplyBody → Bytes
  | .accepted reply =>
    beBytes ReplyStat.messageAccepted.number ++ (reply.verifier.wire ++ reply.status.wire)
  | .denied reply => beBytes ReplyStat.messageDenied.number ++ reply.wire

/-- The fields of a message in wire order. -/
def RpcMessage.wire (m : RpcMessage) : Bytes :=
  beBytes m.xid ++
    match m.body with
    | .call call => beBytes MessageType.call.number ++ call.wire
    | .reply reply => beBytes MessageType.reply.number ++ reply.wire

/-- Appending a blob appends its fields, unless its body is too long. -/
theorem OpaqueAuth.encodeInto_eq (auth : OpaqueAuth) (output : Bytes) :
    auth.encodeInto output =
      if auth.body.length ≤ maxAuthBytes then .ok (output ++ auth.wire)
      else .error (.authBodyTooLong auth.body.length) := by
  unfold OpaqueAuth.encodeInto validateAuthLen
  by_cases h : auth.body.length ≤ maxAuthBytes
  · rw [if_neg (by omega), if_pos h]
    simp only [bind, Except.bind, pure, Except.pure, padToXdrAlignment, OpaqueAuth.wire,
      List.append_assoc]
  · rw [if_pos (by omega), if_neg h]
    rfl

/-- A blob that fits is appended as its fields. -/
theorem OpaqueAuth.encodeInto_of_fits {auth : OpaqueAuth} (h : auth.Fits) (output : Bytes) :
    auth.encodeInto output = .ok (output ++ auth.wire) := by
  unfold OpaqueAuth.Fits at h
  rw [OpaqueAuth.encodeInto_eq, if_pos h]

/-- A blob that does not fit is refused. -/
theorem OpaqueAuth.encodeInto_of_not_fits {auth : OpaqueAuth} (h : ¬ auth.Fits)
    (output : Bytes) :
    auth.encodeInto output = .error (.authBodyTooLong auth.body.length) := by
  unfold OpaqueAuth.Fits at h
  rw [OpaqueAuth.encodeInto_eq, if_neg h]

/-- Encoding succeeds exactly on messages whose blobs fit, and then gives their fields. -/
theorem RpcMessage.encode_eq_ok_iff (m : RpcMessage) (b : Bytes) :
    m.encode = .ok b ↔ m.Fits ∧ b = m.wire := by
  obtain ⟨xid, body⟩ := m
  match body with
  | .call call =>
    by_cases hc : call.credentials.Fits
    · by_cases hv : call.verifier.Fits
      · simp [RpcMessage.encode, RpcMessage.Fits, RpcMessage.wire, CallBody.wire,
          OpaqueAuth.encodeInto_of_fits hc, OpaqueAuth.encodeInto_of_fits hv, hc, hv, bind,
          Except.bind, pure, Except.pure, eq_comm]
      · simp [RpcMessage.encode, RpcMessage.Fits, OpaqueAuth.encodeInto_of_fits hc,
          OpaqueAuth.encodeInto_of_not_fits hv, hv, bind, Except.bind]
    · simp [RpcMessage.encode, RpcMessage.Fits, OpaqueAuth.encodeInto_of_not_fits hc, hc, bind,
        Except.bind]
  | .reply (.accepted ⟨verifier, status⟩) =>
    by_cases hv : verifier.Fits
    · cases status <;>
        simp [RpcMessage.encode, encodeReplyBody, RpcMessage.Fits, ReplyBody.Fits,
          RpcMessage.wire, ReplyBody.wire, AcceptedStatus.wire, AcceptedStatus.stat,
            AcceptedStatus.fields,
          OpaqueAuth.encodeInto_of_fits hv, hv, bind, Except.bind, pure, Except.pure, eq_comm]
    · simp [RpcMessage.encode, encodeReplyBody, RpcMessage.Fits, ReplyBody.Fits,
        OpaqueAuth.encodeInto_of_not_fits hv, hv, bind, Except.bind]
  | .reply (.denied rejected) =>
    cases rejected <;>
      simp [RpcMessage.encode, encodeReplyBody, RpcMessage.Fits, ReplyBody.Fits, RpcMessage.wire,
        ReplyBody.wire, RejectedReply.wire, RejectedReply.stat, RejectedReply.fields, pure,
          Except.pure, eq_comm]

/-! ## The field decoders -/

theorem inverts_readU32 : Inverts readU32 (fun w b => b = beBytes w) := by
  intro input w rest
  unfold readU32
  by_cases h : input.length < 4
  · simp only [h, if_true, reduceCtorEq, false_iff, not_exists, not_and]
    rintro b rfl rfl
    simp only [List.length_append, beBytes_length] at h
    omega
  · obtain ⟨v, hv⟩ := exists_beBytes_append (l := input) (by omega)
    simp only [h, if_false, Except.ok.injEq, Prod.mk.injEq]
    constructor
    · rintro ⟨rfl, rfl⟩
      refine ⟨_, rfl, ?_⟩
      rw [hv, wordOf_beBytes_append]
      simp
    · rintro ⟨b, rfl, rfl⟩
      exact ⟨wordOf_beBytes_append w rest, drop_beBytes_append w rest⟩

theorem inverts_readOpaque (len : ℕ) :
    Inverts (readOpaque len)
      (fun x b => x.length = len ∧ b = x ++ List.replicate (xdrPadding len) 0) := by
  intro input x rest
  unfold readOpaque
  dsimp only
  constructor
  · intro h
    split_ifs at h with h1 h2 h3
    simp only [Except.ok.injEq, Prod.mk.injEq] at h
    obtain ⟨rfl, rfl⟩ := h
    simp only [List.length_drop, not_lt] at h1 h2
    simp only [List.any_eq_true, bne_iff_ne, ne_eq, not_exists, not_and, not_not] at h3
    have hpad : (input.drop len).take (xdrPadding len) = List.replicate (xdrPadding len) 0 := by
      rw [List.eq_replicate_iff]
      refine ⟨?_, h3⟩
      simp only [List.length_take, List.length_drop]
      omega
    refine ⟨_, ⟨by simp only [List.length_take]; omega, rfl⟩, ?_⟩
    rw [← hpad, List.append_assoc, List.take_append_drop, List.take_append_drop]
  · rintro ⟨b, ⟨rfl, rfl⟩, rfl⟩
    rw [if_neg (by simp only [List.length_append]; omega)]
    simp only [List.append_assoc, List.drop_left, List.take_left]
    rw [if_neg (by simp), if_neg (by simp)]
    simp

theorem inverts_convert {α : Type} (r : Except WireError α) :
    Inverts (convert r) (fun x b => r = .ok x ∧ b = []) := by
  intro input x rest
  unfold convert
  cases r with
  | error e => simp [Except.map]
  | ok y =>
    simp only [Except.map, Except.ok.injEq, Prod.mk.injEq]
    constructor
    · rintro ⟨rfl, rfl⟩
      exact ⟨[], ⟨rfl, rfl⟩, rfl⟩
    · rintro ⟨b, ⟨rfl, rfl⟩, rfl⟩
      exact ⟨rfl, rfl⟩

theorem covers_expectEnd {α : Type} (value : α) :
    Covers (expectEnd value) (fun x b => x = value ∧ b = []) := by
  intro input x rest
  unfold expectEnd
  cases input with
  | nil => simp [and_comm, eq_comm]
  | cons a t => simp

theorem covers_readPayload : Covers readPayload (fun x b => x = b) := by
  intro input x rest
  simp [readPayload, and_comm, eq_comm]

/-! ## The structured decoders -/

/-- Reading the discriminant of an accepted status. -/
theorem AcceptStat.tryFrom_eq_ok_iff (value : UInt32) (stat : AcceptStat) :
    AcceptStat.tryFrom value = .ok stat ↔ value = stat.number := by
  unfold AcceptStat.tryFrom
  cases stat <;> split_ifs <;> simp_all [AcceptStat.number]

/-- Reading the discriminant of a denied reply. -/
theorem RejectStat.tryFrom_eq_ok_iff (value : UInt32) (stat : RejectStat) :
    RejectStat.tryFrom value = .ok stat ↔ value = stat.number := by
  unfold RejectStat.tryFrom
  cases stat <;> split_ifs <;> simp_all [RejectStat.number]

/-- Reading the discriminant of a reply. -/
theorem ReplyStat.tryFrom_eq_ok_iff (value : UInt32) (stat : ReplyStat) :
    ReplyStat.tryFrom value = .ok stat ↔ value = stat.number := by
  unfold ReplyStat.tryFrom
  cases stat <;> split_ifs <;> simp_all [ReplyStat.number]

/-- Reading the discriminant of a message. -/
theorem MessageType.tryFrom_eq_ok_iff (value : UInt32) (type : MessageType) :
    MessageType.tryFrom value = .ok type ↔ value = type.number := by
  unfold MessageType.tryFrom
  cases type <;> split_ifs <;> simp_all [MessageType.number]

/-- A blob is read from its fields: the flavor in its canonical spelling, a body within the limit
and zero padding. -/
theorem OpaqueAuth.inverts_decode :
    Inverts OpaqueAuth.decode
      (fun auth b => auth.flavor.IsCanonical ∧ auth.Fits ∧ b = auth.wire) := by
  refine Inverts.congr (inverts_readU32.bind fun flavor => inverts_readU32.bind fun len =>
    (inverts_convert (validateAuthLen len.toNat)).bind fun _ =>
    (inverts_readOpaque len.toNat).bind fun body =>
    inverts_pure (⟨AuthFlavor.ofNumber flavor, body⟩ : OpaqueAuth)) ?_
  rintro ⟨flavor, body⟩ b
  simp only [Chain, validateAuthLen, OpaqueAuth.Fits, OpaqueAuth.wire]
  constructor
  · rintro ⟨v, _, _, rfl, ⟨n, _, _, rfl, ⟨u, _, _, ⟨hlen, rfl⟩, ⟨body', _, _, ⟨hbody, rfl⟩,
      ⟨hauth, rfl⟩, rfl⟩, rfl⟩, rfl⟩, rfl⟩
    cases hauth
    obtain ⟨hc, hnum⟩ := (AuthFlavor.ofNumber_eq_iff v _).mp rfl
    split_ifs at hlen with hle
    refine ⟨hc, by omega, ?_⟩
    rw [hnum, hbody, UInt32.ofNat_toNat]
    simp
  · rintro ⟨hc, hfits, rfl⟩
    have hlen : (UInt32.ofNat body.length).toNat = body.length := by
      rw [UInt32.toNat_ofNat']
      exact Nat.mod_eq_of_lt (by unfold maxAuthBytes at hfits; omega)
    refine ⟨flavor.number, _, _, rfl, ⟨UInt32.ofNat body.length, _, _, rfl, ⟨(), [], _,
      ⟨?_, rfl⟩, ⟨body, _, [], ⟨hlen.symm, rfl⟩, ⟨?_, rfl⟩, rfl⟩, rfl⟩, rfl⟩, ?_⟩
    · rw [hlen, if_neg (by omega)]
    · rw [(AuthFlavor.ofNumber_eq_iff _ flavor).mpr ⟨hc, rfl⟩]
    · simp [hlen]

theorem inverts_readVersionRange :
    Inverts readVersionRange (fun range b => b = beBytes range.low ++ beBytes range.high) := by
  refine Inverts.congr (inverts_readU32.bind fun low => inverts_readU32.bind fun high =>
    inverts_pure (⟨low, high⟩ : VersionRange)) ?_
  rintro ⟨low, high⟩ b
  simp only [Chain]
  constructor
  · rintro ⟨v, _, _, rfl, ⟨w, _, _, rfl, ⟨h, rfl⟩, rfl⟩, rfl⟩
    cases h
    simp
  · rintro rfl
    exact ⟨low, _, _, rfl, ⟨high, _, [], rfl, ⟨rfl, rfl⟩, rfl⟩, by simp⟩

/-- The fields of a call after its RPC version. -/
theorem covers_callFields (v : UInt32) :
    Covers (do
        let program ← readU32
        let version ← readU32
        let procedure ← readU32
        let credentials ← OpaqueAuth.decode
        let verifier ← OpaqueAuth.decode
        let payload ← readPayload
        return (⟨v, ⟨program, version⟩, procedure, credentials, verifier, payload⟩ : CallBody))
      (fun call b => call.rpcVersion = v ∧
        (call.credentials.flavor.IsCanonical ∧ call.credentials.Fits) ∧
        (call.verifier.flavor.IsCanonical ∧ call.verifier.Fits) ∧
        beBytes v ++ b = call.wire) := by
  refine Covers.congr (inverts_readU32.bind_covers fun program =>
    inverts_readU32.bind_covers fun version => inverts_readU32.bind_covers fun procedure =>
    OpaqueAuth.inverts_decode.bind_covers fun credentials =>
    OpaqueAuth.inverts_decode.bind_covers fun verifier =>
    covers_readPayload.bind_pure fun payload =>
      (⟨v, ⟨program, version⟩, procedure, credentials, verifier, payload⟩ : CallBody)) ?_
  rintro ⟨v', ⟨program, version⟩, procedure, credentials, verifier, payload⟩ b
  simp only [Chain, CallBody.wire]
  constructor
  · rintro ⟨p, _, _, rfl, ⟨q, _, _, rfl, ⟨r, _, _, rfl, ⟨c, _, _, ⟨hc1, hc2, rfl⟩, ⟨w, _, _,
      ⟨hw1, hw2, rfl⟩, ⟨x, h, rfl⟩, rfl⟩, rfl⟩, rfl⟩, rfl⟩, rfl⟩
    cases h
    exact ⟨rfl, ⟨hc1, hc2⟩, ⟨hw1, hw2⟩, rfl⟩
  · rintro ⟨rfl, ⟨hc1, hc2⟩, ⟨hw1, hw2⟩, h⟩
    have hb := (beBytes_append_inj.mp h).2
    exact ⟨program, _, _, rfl, ⟨version, _, _, rfl, ⟨procedure, _, _, rfl, ⟨credentials, _, _,
      ⟨hc1, hc2, rfl⟩, ⟨verifier, _, _, ⟨hw1, hw2, rfl⟩, ⟨payload, rfl, rfl⟩, rfl⟩, rfl⟩, rfl⟩,
      rfl⟩, hb⟩

/-- A call is read from its fields. -/
theorem covers_decodeCallBody :
    Covers decodeCallBody (fun call b => call.rpcVersion = rpcVersion2 ∧
      (call.credentials.flavor.IsCanonical ∧ call.credentials.Fits) ∧
      (call.verifier.flavor.IsCanonical ∧ call.verifier.Fits) ∧ b = call.wire) := by
  have hver : ∀ v, Covers (if v ≠ rpcVersion2 then throw (.unsupportedRpcVersion v)
      else do
        let program ← readU32
        let version ← readU32
        let procedure ← readU32
        let credentials ← OpaqueAuth.decode
        let verifier ← OpaqueAuth.decode
        let payload ← readPayload
        return (⟨v, ⟨program, version⟩, procedure, credentials, verifier, payload⟩ : CallBody))
      (fun call b => v = rpcVersion2 ∧ call.rpcVersion = v ∧
        (call.credentials.flavor.IsCanonical ∧ call.credentials.Fits) ∧
        (call.verifier.flavor.IsCanonical ∧ call.verifier.Fits) ∧
        beBytes v ++ b = call.wire) := by
    intro v
    by_cases hv : v = rpcVersion2
    · rw [if_neg (by simp [hv])]
      exact (covers_callFields v).congr fun call b => by simp [hv]
    · rw [if_pos hv]
      exact (covers_throw _).congr fun call b => by simp [hv]
  refine Covers.congr (inverts_readU32.bind_covers hver) ?_
  intro call b
  simp only [Chain]
  constructor
  · rintro ⟨v, _, _, rfl, ⟨rfl, h1, h2, h3, h4⟩, rfl⟩
    exact ⟨h1, h2, h3, h4⟩
  · rintro ⟨h1, h2, h3, rfl⟩
    have hw : beBytes rpcVersion2 ++ (call.wire.drop 4) = call.wire := by
      rw [← h1]
      rfl
    exact ⟨rpcVersion2, _, call.wire.drop 4, rfl, ⟨rfl, h1, h2, h3, hw⟩, hw.symm⟩

/-- An accepted status is read from what follows its discriminant. -/
theorem covers_decodeAcceptedStatus (stat : AcceptStat) :
    Covers (decodeAcceptedStatus stat)
      (fun status b => status.stat = stat ∧ b = status.fields) := by
  cases stat with
  | success =>
    refine (covers_readPayload.bind_pure AcceptedStatus.success).congr fun status b => ?_
    cases status <;> simp [AcceptedStatus.stat, AcceptedStatus.fields, eq_comm]
  | programMismatch =>
    refine (inverts_readVersionRange.bind_covers fun range =>
      covers_expectEnd (AcceptedStatus.programMismatch range)).congr fun status b => ?_
    cases status <;> simp [Chain, AcceptedStatus.stat, AcceptedStatus.fields]
  | programUnavailable | procedureUnavailable | garbageArgs | systemError =>
    refine (covers_expectEnd _).congr fun status b => ?_
    cases status <;> simp [AcceptedStatus.stat, AcceptedStatus.fields]

/-- An accepted reply is read from its verifier and its status. -/
theorem covers_decodeAcceptedReply :
    Covers decodeAcceptedReply (fun reply b => reply.verifier.flavor.IsCanonical ∧
      reply.verifier.Fits ∧ b = reply.verifier.wire ++ reply.status.wire) := by
  refine Covers.congr (OpaqueAuth.inverts_decode.bind_covers fun verifier =>
    inverts_readU32.bind_covers fun value =>
    (inverts_convert (AcceptStat.tryFrom value)).bind_covers fun stat =>
    (covers_decodeAcceptedStatus stat).bind_pure fun status =>
      (⟨verifier, status⟩ : AcceptedReply)) ?_
  rintro ⟨verifier, status⟩ b
  simp only [Chain, AcceptStat.tryFrom_eq_ok_iff, AcceptedStatus.wire]
  constructor
  · rintro ⟨v, _, _, ⟨h1, h2, rfl⟩, ⟨n, _, _, rfl, ⟨t, _, _, ⟨rfl, rfl⟩, ⟨u, h, rfl, rfl⟩, rfl⟩,
      rfl⟩, rfl⟩
    cases h
    exact ⟨h1, h2, rfl⟩
  · rintro ⟨h1, h2, rfl⟩
    exact ⟨verifier, _, _, ⟨h1, h2, rfl⟩, ⟨status.stat.number, _, _, rfl, ⟨status.stat, [], _,
      ⟨rfl, rfl⟩, ⟨status, rfl, rfl, rfl⟩, rfl⟩, rfl⟩, rfl⟩

/-- A denied reply is read from its discriminant and its fields. -/
theorem covers_decodeRejectedReply :
    Covers decodeRejectedReply (fun reply b => reply.IsCanonical ∧ b = reply.wire) := by
  have hstat (next : RejectStat → Parser WireError RejectedReply)
      (hmismatch : next .rpcMismatch = do
        let range ← readVersionRange
        expectEnd (RejectedReply.rpcMismatch range))
      (hauth : next .authError = do
        let status := AuthStat.ofNumber (← readU32)
        expectEnd (RejectedReply.authError status)) (stat : RejectStat) :
      Covers (next stat) (fun reply b => reply.IsCanonical ∧ reply.stat = stat ∧
        b = reply.fields) := by
    cases stat with
    | rpcMismatch =>
      rw [hmismatch]
      refine (inverts_readVersionRange.bind_covers fun range =>
        covers_expectEnd (RejectedReply.rpcMismatch range)).congr fun reply b => ?_
      cases reply <;>
        simp [Chain, RejectedReply.stat, RejectedReply.fields, RejectedReply.IsCanonical]
    | authError =>
      rw [hauth]
      refine (inverts_readU32.bind_covers fun value =>
        covers_expectEnd (RejectedReply.authError (AuthStat.ofNumber value))).congr
          fun reply b => ?_
      cases reply with
      | rpcMismatch range => simp [Chain, RejectedReply.stat]
      | authError status =>
        simp only [Chain, RejectedReply.authError.injEq, RejectedReply.stat,
          RejectedReply.fields, RejectedReply.IsCanonical, true_and]
        constructor
        · rintro ⟨v, _, _, rfl, ⟨h, rfl⟩, rfl⟩
          obtain ⟨hc, hn⟩ := (AuthStat.ofNumber_eq_iff v status).mp h.symm
          exact ⟨hc, by simp [hn]⟩
        · rintro ⟨hc, rfl⟩
          exact ⟨status.number, _, [], rfl,
            ⟨((AuthStat.ofNumber_eq_iff _ status).mpr ⟨hc, rfl⟩).symm, rfl⟩, by simp⟩
  refine Covers.congr (inverts_readU32.bind_covers fun value =>
    (inverts_convert (RejectStat.tryFrom value)).bind_covers (hstat _ rfl rfl)) ?_
  intro reply b
  simp only [Chain, RejectStat.tryFrom_eq_ok_iff, RejectedReply.wire]
  constructor
  · rintro ⟨n, _, _, rfl, ⟨t, _, _, ⟨rfl, rfl⟩, ⟨h1, rfl, rfl⟩, rfl⟩, rfl⟩
    exact ⟨h1, rfl⟩
  · rintro ⟨h1, rfl⟩
    exact ⟨reply.stat.number, _, _, rfl, ⟨reply.stat, [], _, ⟨rfl, rfl⟩, ⟨h1, rfl, rfl⟩, rfl⟩, rfl⟩

/-- A reply is read from its discriminant and its body. -/
theorem covers_decodeReplyBody :
    Covers decodeReplyBody (fun reply b => reply.IsCanonical ∧ reply.Fits ∧ b = reply.wire) := by
  have hstat (next : ReplyStat → Parser WireError ReplyBody)
      (haccepted : next .messageAccepted = ReplyBody.accepted <$> decodeAcceptedReply)
      (hdenied : next .messageDenied = ReplyBody.denied <$> decodeRejectedReply)
      (stat : ReplyStat) :
      Covers (next stat) (fun reply b => reply.IsCanonical ∧ reply.Fits ∧
        beBytes stat.number ++ b = reply.wire) := by
    cases stat with
    | messageAccepted =>
      rw [haccepted]
      refine (covers_decodeAcceptedReply.map ReplyBody.accepted).congr fun reply b => ?_
      cases reply with
      | accepted reply =>
        simp [ReplyBody.IsCanonical, ReplyBody.Fits, ReplyBody.wire]
      | denied reply =>
        simp [ReplyBody.wire, ReplyStat.number]
    | messageDenied =>
      rw [hdenied]
      refine (covers_decodeRejectedReply.map ReplyBody.denied).congr fun reply b => ?_
      cases reply with
      | accepted reply =>
        simp [ReplyBody.wire, ReplyStat.number]
      | denied reply =>
        simp [ReplyBody.IsCanonical, ReplyBody.Fits, ReplyBody.wire]
  refine Covers.congr (inverts_readU32.bind_covers fun value =>
    (inverts_convert (ReplyStat.tryFrom value)).bind_covers (hstat _ rfl rfl)) ?_
  intro reply b
  simp only [Chain, ReplyStat.tryFrom_eq_ok_iff]
  constructor
  · rintro ⟨n, _, _, rfl, ⟨t, _, _, ⟨rfl, rfl⟩, ⟨h1, h2, h3⟩, rfl⟩, rfl⟩
    exact ⟨h1, h2, h3⟩
  · rintro ⟨h1, h2, rfl⟩
    cases reply with
    | accepted reply =>
      exact ⟨_, _, _, rfl, ⟨.messageAccepted, [], _, ⟨rfl, rfl⟩, ⟨h1, h2, rfl⟩, rfl⟩, rfl⟩
    | denied reply =>
      exact ⟨_, _, _, rfl, ⟨.messageDenied, [], _, ⟨rfl, rfl⟩, ⟨h1, h2, rfl⟩, rfl⟩, rfl⟩

/-- A message is read from its fields. -/
theorem RpcMessage.covers_parse :
    Covers RpcMessage.parse (fun m b => m.IsCanonical ∧ m.Fits ∧ b = m.wire) := by
  have htype : ∀ type : MessageType, Covers (decodeMessageBody type)
      (fun body b => match body with
        | .call call => type = .call ∧ (call.rpcVersion = rpcVersion2 ∧
            (call.credentials.flavor.IsCanonical ∧ call.credentials.Fits) ∧
            (call.verifier.flavor.IsCanonical ∧ call.verifier.Fits) ∧ b = call.wire)
        | .reply reply => type = .reply ∧
            (reply.IsCanonical ∧ reply.Fits ∧ b = reply.wire)) := by
    intro type
    cases type with
    | call =>
      refine (covers_decodeCallBody.map MessageBody.call).congr fun body b => ?_
      cases body <;> simp
    | reply =>
      refine (covers_decodeReplyBody.map MessageBody.reply).congr fun body b => ?_
      cases body <;> simp
  refine Covers.congr (inverts_readU32.bind_covers fun xid =>
    inverts_readU32.bind_covers fun value =>
    (inverts_convert (MessageType.tryFrom value)).bind_covers fun type =>
    (htype type).bind_pure fun body => (⟨xid, body⟩ : RpcMessage)) ?_
  rintro ⟨xid, body⟩ b
  simp only [Chain, MessageType.tryFrom_eq_ok_iff, RpcMessage.wire, RpcMessage.IsCanonical,
    RpcMessage.Fits]
  constructor
  · rintro ⟨x, _, _, rfl, ⟨n, _, _, rfl, ⟨t, _, _, ⟨rfl, rfl⟩, ⟨y, h, hy⟩, rfl⟩, rfl⟩, rfl⟩
    cases h
    cases body with
    | call call =>
      obtain ⟨rfl, h1, ⟨h2, h3⟩, ⟨h4, h5⟩, rfl⟩ := hy
      exact ⟨⟨h1, h2, h4⟩, ⟨h3, h5⟩, rfl⟩
    | reply reply =>
      obtain ⟨rfl, h1, h2, rfl⟩ := hy
      exact ⟨h1, h2, rfl⟩
  · rintro ⟨h1, h2, rfl⟩
    cases body with
    | call call =>
      exact ⟨xid, _, _, rfl, ⟨_, _, _, rfl, ⟨.call, [], _, ⟨rfl, rfl⟩, ⟨.call call, rfl, rfl,
        h1.1, ⟨h1.2.1, h2.1⟩, ⟨h1.2.2, h2.2⟩, rfl⟩, rfl⟩, rfl⟩, rfl⟩
    | reply reply =>
      exact ⟨xid, _, _, rfl, ⟨_, _, _, rfl, ⟨.reply, [], _, ⟨rfl, rfl⟩, ⟨.reply reply, rfl, rfl,
        h1, h2, rfl⟩, rfl⟩, rfl⟩, rfl⟩

/-- Decoding succeeds exactly on the fields of canonical messages whose blobs fit. -/
theorem RpcMessage.decode_eq_ok_iff_wire (b : Bytes) (m : RpcMessage) :
    RpcMessage.decode b = .ok m ↔ m.IsCanonical ∧ m.Fits ∧ b = m.wire := by
  unfold RpcMessage.decode
  constructor
  · intro h
    cases hp : RpcMessage.parse b with
    | error e => simp [hp, Except.map] at h
    | ok q =>
      obtain ⟨x, rest⟩ := q
      simp only [hp, Except.map, Except.ok.injEq] at h
      subst h
      exact ((RpcMessage.covers_parse _ _ _).mp hp).2
  · intro h
    have hp := (RpcMessage.covers_parse b m []).mpr ⟨rfl, h⟩
    simp [hp, Except.map]

end OncRpc
