import OncRpc.Owned.SegmentedReceive

/-!
# Segmented receive agrees with buffered receive

The segmented path decodes the envelope incrementally and scatters the payload over the caller's
buffers.  On a complete record within the limits it ends as the plain decoder of the whole payload
says: `ReceiveEnds` describes the end in terms of the envelope program, and the envelope program
agrees with the decoder (`decode_of_envelope`, `envelope_of_decode`).
-/

namespace OncRpc

open Foundation Foundation.ReadProgram

/-! ## The result on a complete record -/

/-- How a segmented receive of the payload `data` ends, in terms of the envelope program. -/
inductive ReceiveEnds (init : List Bytes) (data : Bytes) :
    Except RuntimeError (RpcMessage × ℕ) → Target Buffers → Prop
  | short (e : RuntimeError) (target : Target Buffers) (hshort : data.length < 4) :
    ReceiveEnds init data (.error e) target
  | refused (xid after : Bytes) (e : RuntimeError) (target : Target Buffers) (h4 : xid.length = 4)
    (hdata : data = xid ++ after) (hrun : (replyHeader xid).run recordEof after = some (.error e)) :
    ReceiveEnds init data (.error e) target
  | exact (xid after : Bytes) (reply : RpcMessage) (placed : Bytes) (target : Target Buffers)
    (h4 : xid.length = 4) (hdata : data = xid ++ after)
    (hrun : (replyHeader xid).run recordEof after = some (.ok (reply, placed)))
    (ht : TargetAt init placed target) (hplaced : reply.isSuccess = true ∨ placed = []) :
    ReceiveEnds init data (.ok (reply, placed.length)) target
  | exceeding (xid after : Bytes) (reply : RpcMessage) (placed extra : Bytes)
      (target : Target Buffers)
    (h4 : xid.length = 4) (hdata : data = xid ++ after)
    (hrun : (replyHeader xid).run recordEof after = some (.ok (reply, placed ++ extra)))
    (hextra : extra ≠ [])
    (hroom : if reply.isSuccess then placed.length = init.flatten.length else placed = []) :
    ReceiveEnds init data (overrun reply reply.isSuccess extra.length) target

/-- A stage that sees the end of the record. -/
theorem StageReads.atEnd {init : List Bytes} {xid after : Bytes} {stage : Stage Buffers} {wants : ℕ}
    {atEnd : Except RuntimeError (RpcMessage × ℕ)}
    (h : StageReads False (TargetAt init) xid after stage)
    (hkind : stage.sender.isBuffered = false) (h4 : xid.length = 4)
    (hp : stage.pending = some (wants, atEnd)) :
    ∃ target, stage.sender = .segmented target ∧ ReceiveEnds init (xid ++ after) atEnd target := by
  cases stage with
  | header target count next got =>
    obtain ⟨ht, hlt, -, hrun⟩ := h
    cases hp
    refine ⟨target, rfl, .refused xid after _ target h4 rfl ?_⟩
    have hend := hrun []
    rw [List.append_nil, List.append_nil] at hend
    rw [hend, ReadProgram.run, if_neg (by omega)]
  | payload target reply length room =>
    obtain ⟨placed, hsupplies, hs, rfl, -, hh⟩ := h
    cases hp
    have hrun := hh []
    rw [List.append_nil, List.append_nil] at hrun
    exact ⟨target, rfl,
      .exact xid after reply placed target h4 rfl hrun hsupplies.targetAt.1 (.inl hs)⟩
  | probe target reply success length =>
    obtain ⟨placed, hs, rfl, hroom, hh⟩ := h
    cases hp
    have hrun := hh []
    rw [List.append_nil, List.append_nil] at hrun
    obtain ⟨ht, hfull⟩ := hroom.targetAt
    refine ⟨target, rfl, .exact xid after reply placed target h4 rfl hrun ht ?_⟩
    split_ifs at hfull with hsucc
    · exact .inl hsucc
    · exact .inr hfull
  | extra target reply success count =>
    obtain ⟨placed, extra, rfl, rfl, hextra, hroom, hh⟩ := h
    cases hp
    have hrun := hh []
    rw [List.append_nil, List.append_nil] at hrun
    exact ⟨target, rfl,
      .exceeding xid after reply placed extra target h4 rfl hrun hextra hroom.targetAt.2⟩
  | ended | panicked => cases hp
  | assemble bytes => cases hkind

/-- What a segmented receive into the caller's buffers has taken, and what its stage amounts to. -/
abbrev RecordTask.At (limits : RecordLimits) (init : List Bytes) :
    RecordTask Buffers → Bytes → Prop :=
  RecordTask.Fed limits (TargetAt init []) fun xid after stage =>
    StageReads False (TargetAt init) xid after stage ∧ stage.sender.isBuffered = false

/-- The state in which a segmented receive of a complete record within the limits is over. -/
theorem RecordTask.At.ends {limits : RecordLimits} {init : List Bytes} {record : Record}
    {rest taken left : Bytes} {s : RecordTask Buffers}
    {result : Option (Except RuntimeError (RpcMessage × ℕ))} (hwithin : record.Within limits)
    (hinput : record.bytes ++ rest = taken ++ left) (h : RecordTask.At limits init s taken)
    (hready : s.poll = .ready result) :
    ∃ received target, result = some received ∧ s.target = some target ∧
      ReceiveEnds init record.data received target := by
  cases s with
  | xid cursor got target =>
    obtain ⟨hcursor, h4, ht⟩ := h
    rcases hcursor.poll_on_record (4 - got.length) hwithin hinput (by omega) with
      ⟨hdone, rfl⟩ | ⟨count, hawait⟩
    · simp only [RecordTask.poll, RecordReader.awaitRead, hdone] at hready
      cases hready
      exact ⟨_, target, rfl, rfl, .short _ _ h4⟩
    · simp only [RecordTask.poll, RecordReader.awaitRead, hawait] at hready
      cases hready
  | receiving receive =>
    rcases h with ⟨hover, -⟩ | ⟨xid, after, h4, hcursor, hstage, hkind⟩
    · exact absurd hover (hwithin.not_limit hinput).1
    · cases hpending : receive.stage.pending with
      | none =>
        -- The envelope was refused, perhaps before the end of the record.
        simp only [RecordTask.poll, Receive.poll, hpending] at hready
        obtain ⟨unread, hdata⟩ := hcursor.payload_isPrefix hinput.symm
        cases hst : receive.stage with
        | ended sender r =>
          rw [hst] at hstage hkind hready
          obtain ⟨e, rfl, hrun⟩ := hstage
          cases hready
          cases sender with
          | buffered => cases hkind
          | segmented target =>
            refine ⟨_, target, rfl, by simp only [RecordTask.target, hst, Stage.sender], ?_⟩
            exact .refused xid (after ++ unread) e target h4 (by rw [← hdata, List.append_assoc])
              (hrun.resolve_left id unread)
        | panicked target =>
          rw [hst] at hstage
          exact hstage.elim
        | assemble | header | payload | probe | extra =>
          rw [hst] at hpending
          cases hpending
      | some pending =>
        obtain ⟨wants, atEnd⟩ := pending
        simp only [RecordTask.poll, Receive.poll, hpending, RecordReader.awaitRead] at hready
        rcases hcursor.poll_on_record wants hwithin hinput (hstage.wants_ne_zero hpending) with
          ⟨hdone, hdata⟩ | ⟨count, hawait⟩
        · obtain ⟨target, hsender, hends⟩ := hstage.atEnd hkind h4 hpending
          rw [hdone] at hready
          cases hready
          refine ⟨_, target, rfl, by simp only [RecordTask.target, hsender], ?_⟩
          rw [← hdata]
          exact hends
        · rw [hawait] at hready
          cases hready

/-- A segmented receive of a complete record within the limits comes to an end. -/
theorem receiveSegmented_ends {limits : RecordLimits} (hvalid : limits.Valid) (init : List Bytes)
    {record : Record} (hwithin : record.Within limits) (rest : Bytes) (sizes : List ℕ) :
    ∃ received target,
      receiveSegmented limits ⟨⟨init, 0, 0⟩, 0⟩ ⟨record.bytes ++ rest, sizes⟩ =
        some (segmentedResult received, target) ∧
      ReceiveEnds init record.data received target := by
  have hnew : RecordReader.new limits = .ok (RecordReader.start limits) := by
    unfold RecordReader.new
    rw [(limits.validate_eq_ok_iff).mpr hvalid]
    rfl
  have hfresh : TargetAt init [] ⟨⟨init, 0, 0⟩, 0⟩ := ⟨rfl, BuffersAt.start init⟩
  obtain ⟨result, taken, hready, hinput, hat⟩ :=
    RecordTask.Fed.drive (keptByFeed_targetAt limits init) hfresh record rest sizes
  obtain ⟨received, target, rfl, htarget, hends⟩ := RecordTask.At.ends hwithin hinput hat hready
  refine ⟨received, target, ?_, hends⟩
  unfold receiveSegmented
  rw [hnew]
  simp only [hready, htarget]

/-! ## Agreement with the decoder -/

theorem RpcMessage.isSuccess_iff {m : RpcMessage} (h : m.isReply = true) :
    m.isSuccess = true ↔ m.HasPayload := by
  obtain ⟨xid, body⟩ := m
  match body with
  | .call call => cases h
  | .reply (.accepted ⟨verifier, status⟩) =>
    cases status <;> simp [RpcMessage.isSuccess, RpcMessage.HasPayload, AcceptedStatus.stat]
  | .reply (.denied reply) => simp [RpcMessage.isSuccess, RpcMessage.HasPayload]

/-- A successful envelope with any payload is the header of a message. -/
theorem RpcMessage.exists_payload {reply : RpcMessage} (hs : reply.isSuccess = true)
    (hheader : reply.header = reply) (hc : reply.IsCanonical) (hf : reply.Fits) (payload : Bytes) :
    ∃ m : RpcMessage, m.header = reply ∧ m.payload = payload ∧ m.isReply = true ∧
      RpcMessage.decode (reply.wire ++ payload) = .ok m := by
  obtain ⟨xid, body⟩ := reply
  match body with
  | .call call => cases hs
  | .reply (.denied reply) => cases hs
  | .reply (.accepted ⟨verifier, status⟩) =>
    cases status with
    | success results =>
      refine ⟨⟨xid, .reply (.accepted ⟨verifier, .success payload⟩)⟩, hheader, rfl, rfl, ?_⟩
      rw [RpcMessage.decode_eq_ok_iff_wire]
      refine ⟨hc, hf, ?_⟩
      rw [← hheader, RpcMessage.wire_eq_header_append ⟨xid, .reply (.accepted ⟨verifier, _⟩)⟩]
      rfl
    | _ => cases hs

/-- What the plain decoder makes of a payload whose envelope was read. -/
theorem decode_of_envelope {xid after tail : Bytes} {reply : RpcMessage} (h4 : xid.length = 4)
    (hrun : (replyHeader xid).run recordEof after = some (.ok (reply, tail))) :
    reply.isReply = true ∧
      if reply.isSuccess then
        ∃ m : RpcMessage, m.header = reply ∧ m.payload = tail ∧ m.isReply = true ∧
          RpcMessage.decode (xid ++ after) = .ok m
      else if tail = [] then
        RpcMessage.decode (xid ++ after) = .ok reply ∧ reply.header = reply ∧ reply.payload = []
      else RpcMessage.decode (xid ++ after) = .error (.trailingBytes tail.length) := by
  obtain ⟨hreply, hc, hf, hheader, hwire⟩ := replyHeader_sound h4 hrun
  refine ⟨hreply, ?_⟩
  rw [hwire]
  split_ifs with hs htail
  · exact RpcMessage.exists_payload hs hheader hc hf tail
  · rw [htail, List.append_nil]
    exact ⟨(RpcMessage.decode_eq_ok_iff_wire _ _).mpr ⟨hc, hf, rfl⟩, hheader,
      RpcMessage.payload_eq_nil (mt (RpcMessage.isSuccess_iff hreply).mpr hs)⟩
  · exact RpcMessage.decode_trailing hc hf (mt (RpcMessage.isSuccess_iff hreply).mpr hs) htail

/-- A payload that decodes to a reply has an envelope. -/
theorem envelope_of_decode {data : Bytes} {m : RpcMessage}
    (hdecode : RpcMessage.decode data = .ok m) (hreply : m.isReply = true) :
    ∃ after, data = beBytes m.xid ++ after ∧
      (replyHeader (beBytes m.xid)).run recordEof after = some (.ok (m.header, m.payload)) := by
  obtain ⟨hc, hf, rfl⟩ := (RpcMessage.decode_eq_ok_iff_wire _ _).mp hdecode
  obtain ⟨after, hheader, hrun⟩ := replyHeader_complete hreply hc hf m.payload
  exact ⟨after ++ m.payload, by rw [m.wire_eq_header_append, hheader, List.append_assoc], hrun⟩

/-- A stage whose record ends with a result has the record decoded. -/
theorem StageReads.decode_of_pending {R : Type} [ReplyReceiver R] {lenient : Prop}
    {Holds : Bytes → Target R → Prop} {xid after : Bytes} {stage : Stage R}
    (h : StageReads lenient Holds xid after stage) (h4 : xid.length = 4) {wants : ℕ}
    {value : RpcMessage × ℕ} (hpending : stage.pending = some (wants, .ok value)) :
    ∃ m, RpcMessage.decode (xid ++ after) = .ok m ∧ m.isReply = true ∧
      (value.1 = if stage.sender.isBuffered then m else m.header) := by
  have henvelope : ∀ {reply : RpcMessage} {tail : Bytes}, HeaderIs xid after reply tail →
      reply.isSuccess = true ∨ tail = [] →
      ∃ m, RpcMessage.decode (xid ++ after) = .ok m ∧ m.isReply = true ∧ reply = m.header := by
    intro reply tail hheader hcase
    have hrun := hheader []
    rw [List.append_nil, List.append_nil] at hrun
    obtain ⟨hreply, hdecode⟩ := decode_of_envelope h4 hrun
    split_ifs at hdecode with hs htail
    · obtain ⟨m, hm, -, hmreply, hmdecode⟩ := hdecode
      exact ⟨m, hmdecode, hmreply, hm.symm⟩
    · exact ⟨reply, hdecode.1, hreply, hdecode.2.1.symm⟩
    · rcases hcase with hsuccess | hnil
      · exact absurd hsuccess hs
      · exact absurd hnil htail
  cases stage with
  | assemble bytes =>
    simp only [StageReads] at h
    simp only [Stage.pending, Option.some.injEq, Prod.mk.injEq] at hpending
    have hresult := hpending.2
    unfold assembled at hresult
    rw [h] at hresult
    split at hresult
    · cases hresult
    · next message hdecode =>
      split_ifs at hresult with hreply
      cases hresult
      exact ⟨message, hdecode, hreply, rfl⟩
  | header => cases hpending
  | payload target reply length room =>
    cases hpending
    obtain ⟨placed, -, hs, -, -, hheader⟩ := h
    exact henvelope hheader (.inl hs)
  | probe target reply success length =>
    cases hpending
    obtain ⟨placed, -, -, hroom, hheader⟩ := h
    exact henvelope hheader hroom.success_or_nil
  | extra target reply success count =>
    obtain ⟨placed, extra, hs, -, -, -, hheader⟩ := h
    simp only [Stage.pending, Option.some.injEq, Prod.mk.injEq, overrun] at hpending
    have hresult := hpending.2
    split_ifs at hresult with hsuccess
    cases hresult
    exact henvelope hheader (.inl (hs ▸ hsuccess))
  | ended | panicked => cases hpending

/-- How a segmented receive ends when the payload decodes to a reply that fits the buffers. -/
theorem ReceiveEnds.of_reply {init : List Bytes} {data : Bytes} {m : RpcMessage}
    {received : Except RuntimeError (RpcMessage × ℕ)} {target : Target Buffers}
    (h : ReceiveEnds init data received target) (hdecode : RpcMessage.decode data = .ok m)
    (hreply : m.isReply = true) (hcap : m.payload.length ≤ init.flatten.length) :
    received = .ok (m.header, m.payload.length) ∧ TargetAt init m.payload target := by
  obtain ⟨after', hdata', hrun'⟩ := envelope_of_decode hdecode hreply
  have hsame : ∀ xid after : Bytes, xid.length = 4 → data = xid ++ after →
      xid = beBytes m.xid ∧ after = after' := by
    intro xid after h4 hdata
    exact List.append_inj (hdata.symm.trans hdata') (by rw [h4, beBytes_length])
  cases h with
  | short e _ hshort =>
    rw [hdata', List.length_append, beBytes_length] at hshort
    omega
  | refused xid after e _ h4 hdata hrun =>
    obtain ⟨rfl, rfl⟩ := hsame xid after h4 hdata
    rw [hrun'] at hrun
    cases hrun
  | exact xid after reply placed _ h4 hdata hrun ht hplaced =>
    obtain ⟨rfl, rfl⟩ := hsame xid after h4 hdata
    rw [hrun'] at hrun
    cases hrun
    exact ⟨rfl, ht⟩
  | exceeding xid after reply placed extra _ h4 hdata hrun hextra hroom =>
    obtain ⟨rfl, rfl⟩ := hsame xid after h4 hdata
    have henv := (decode_of_envelope h4 hrun).2
    have hpos := List.length_pos_iff.mpr hextra
    rw [hrun'] at hrun
    simp only [Option.some.injEq, Except.ok.injEq, Prod.mk.injEq] at hrun
    split_ifs at henv hroom with hs htail
    · have hlen := congrArg List.length hrun.2
      rw [List.length_append] at hlen
      omega
    · simp [hextra] at htail
    · rw [← hdata, hdecode] at henv
      cases henv

/-- How a segmented receive ends when the payload does not decode to a reply. -/
theorem ReceiveEnds.of_not_reply {init : List Bytes} {data : Bytes}
    {received : Except RuntimeError (RpcMessage × ℕ)} {target : Target Buffers}
    (h : ReceiveEnds init data received target)
    (hno : ¬ ∃ m, RpcMessage.decode data = .ok m ∧ m.isReply = true) :
    ∃ e, received = .error e ∧
      ∀ count, RpcMessage.decode data = .error (.trailingBytes count) →
        (∃ m b, RpcMessage.decode b = .ok m ∧ m.isReply = true ∧ b <+: data) →
        e = .wire (.trailingBytes count) := by
  cases h with
  | short e _ hshort =>
    refine ⟨e, rfl, fun count _ hreply => ?_⟩
    obtain ⟨m, b, hdecode, -, hprefix⟩ := hreply
    obtain ⟨-, -, rfl⟩ := (RpcMessage.decode_eq_ok_iff_wire _ _).mp hdecode
    have hlen := hprefix.length_le
    unfold RpcMessage.wire at hlen
    rw [List.length_append, beBytes_length] at hlen
    omega
  | refused xid after e _ h4 hdata hrun =>
    refine ⟨e, rfl, fun count _ hreply => ?_⟩
    obtain ⟨m, b, hdecode, hm, extra, hextra⟩ := hreply
    obtain ⟨hc, hf, rfl⟩ := (RpcMessage.decode_eq_ok_iff_wire _ _).mp hdecode
    obtain ⟨after', hheader, hrun'⟩ := replyHeader_complete hm hc hf (m.payload ++ extra)
    have hsplit : xid ++ after = beBytes m.xid ++ (after' ++ (m.payload ++ extra)) := by
      rw [← hdata, ← hextra, m.wire_eq_header_append, hheader]
      simp only [List.append_assoc]
    obtain ⟨rfl, rfl⟩ := List.append_inj hsplit (by rw [h4, beBytes_length])
    rw [hrun'] at hrun
    cases hrun
  | exact xid after reply placed _ h4 hdata hrun ht hplaced =>
    obtain ⟨hr, henv⟩ := decode_of_envelope h4 hrun
    rw [← hdata] at henv
    split_ifs at henv with hs htail
    · obtain ⟨m, -, -, hm, hdecode⟩ := henv
      exact absurd ⟨m, hdecode, hm⟩ hno
    · exact absurd ⟨reply, henv.1, hr⟩ hno
    · exact absurd (hplaced.resolve_left hs) htail
  | exceeding xid after reply placed extra _ h4 hdata hrun hextra hroom =>
    obtain ⟨hr, henv⟩ := decode_of_envelope h4 hrun
    rw [← hdata] at henv
    split_ifs at henv hroom with hs htail
    · obtain ⟨m, -, -, hm, hdecode⟩ := henv
      exact absurd ⟨m, hdecode, hm⟩ hno
    · simp [hextra] at htail
    · have hsucc : reply.isSuccess = false := by simpa using hs
      refine ⟨.wire (.trailingBytes extra.length), by simp [overrun, hsucc], ?_⟩
      intro count hcount _
      rw [hcount, hroom, List.nil_append] at henv
      cases henv
      rfl

/-- Receiving a record into buffers of sufficient capacity succeeds exactly when the record decodes
to a reply, with the same header, payload and trailing-bytes error, however the record is split
into fragments and read. -/
theorem segmented_receive_agrees {limits : RecordLimits} (hvalid : limits.Valid)
    (init : List Bytes) (record : Record) (hwithin : record.Within limits) (rest : Bytes)
    (sizes : List ℕ)
    (hcap : ∀ m, RpcMessage.decode record.data = .ok m → m.payload.length ≤ init.flatten.length) :
    ∃ (outcome : Except RuntimeError RpcMessage) (target : Target Buffers),
      receiveSegmented limits ⟨⟨init, 0, 0⟩, 0⟩ ⟨record.bytes ++ rest, sizes⟩ =
        some (outcome, target) ∧
      ((∃ header, outcome = .ok header) ↔
        ∃ m, RpcMessage.decode record.data = .ok m ∧ m.isReply = true) ∧
      (∀ m, RpcMessage.decode record.data = .ok m → m.isReply = true →
        outcome = .ok m.header ∧ target.payloadLen = m.payload.length ∧
        target.receiver.buffers.flatten.take target.payloadLen = m.payload ∧
        target.receiver.buffers.flatten.drop target.payloadLen =
          init.flatten.drop target.payloadLen ∧
        target.receiver.buffers.map List.length = init.map List.length) ∧
      (∀ m b extra, RpcMessage.decode b = .ok m → m.isReply = true → m.isSuccess = false →
        extra ≠ [] → record.data = b ++ extra →
        RpcMessage.decode record.data = .error (.trailingBytes extra.length) ∧
        outcome = .error (.wire (.trailingBytes extra.length))) ∧
      ∀ xid after : Bytes, xid.length = 4 → (replyHeader xid).run recordEof after ≠ none := by
  obtain ⟨received, target, hreceive, hends⟩ := receiveSegmented_ends hvalid init hwithin rest sizes
  have hsize : record.data.length < usizeMax := by
    have hlen := record.bytes_length
    have hle := hwithin.2
    have hmax := limits.bytes_le
    have hfrag : record.fragments = record.more.length + 1 := rfl
    omega
  have hok : ∀ m, RpcMessage.decode record.data = .ok m → m.isReply = true →
      segmentedResult received = .ok m.header ∧ TargetAt init m.payload target := by
    intro m hdecode hreply
    obtain ⟨rfl, ht⟩ := hends.of_reply hdecode hreply (hcap m hdecode)
    have hpayload : m.payload.length ≠ usizeMax := by
      obtain ⟨-, -, hwire⟩ := (RpcMessage.decode_eq_ok_iff_wire _ _).mp hdecode
      have hlen := congrArg List.length hwire
      rw [m.wire_eq_header_append, List.length_append] at hlen
      omega
    exact ⟨if_pos hpayload, ht⟩
  refine ⟨segmentedResult received, target, hreceive, ⟨?_, ?_⟩, ?_, ?_, ?_⟩
  · rintro ⟨header, hheader⟩
    by_contra hno
    obtain ⟨e, rfl, -⟩ := hends.of_not_reply hno
    cases hheader
  · rintro ⟨m, hdecode, hreply⟩
    exact ⟨_, (hok m hdecode hreply).1⟩
  · intro m hdecode hreply
    obtain ⟨houtcome, hlen, hat⟩ := hok m hdecode hreply
    refine ⟨houtcome, hlen, ?_, ?_, hat.lengths⟩
    · rw [hat.content, hlen, List.take_left]
    · rw [hat.content, hlen, List.drop_left]
  · intro m b extra hdecode hreply hsucc hextra hdata
    obtain ⟨hc, hf, rfl⟩ := (RpcMessage.decode_eq_ok_iff_wire _ _).mp hdecode
    have hpayload : ¬ m.HasPayload := by
      rw [← RpcMessage.isSuccess_iff hreply, hsucc]
      simp
    have htrailing := RpcMessage.decode_trailing hc hf hpayload hextra
    rw [← hdata] at htrailing
    refine ⟨htrailing, ?_⟩
    obtain ⟨e, rfl, he⟩ := hends.of_not_reply (by
      rintro ⟨m', hm', -⟩
      rw [htrailing] at hm'
      cases hm')
    rw [he _ htrailing ⟨m, m.wire, hdecode, hreply, ⟨extra, hdata.symm⟩⟩]
    rfl
  · intro xid after h4 hnone
    rcases (replyHeader_ensures h4).run recordEof after with ⟨e, he⟩ | ⟨m, chunk, tail, hrun, -⟩
    · rw [hnone] at he
      cases he
    · rw [hnone] at hrun
      cases hrun

/-- A successful reply of four payload bytes, scattered over two buffers of five bytes. -/
theorem segmented_receive_agrees_scattered :
    ∃ target : Target Buffers,
      receiveSegmented .default ⟨⟨[[0, 0], [0, 0, 7]], 0, 0⟩, 0⟩
        ⟨[128, 0, 0, 28, 0, 0, 0, 5, 0, 0, 0, 1, 0, 0, 0, 0, 0, 0, 0, 0, 0, 0, 0, 0, 0, 0, 0, 0,
          1, 2, 3, 4], [9, 1]⟩ =
        some (.ok ⟨5, .reply (.accepted ⟨.none, .success []⟩)⟩, target) ∧
      target.receiver.buffers.flatten.take 4 = [1, 2, 3, 4] := by
  have hvalid : RecordLimits.default.Valid := by
    unfold RecordLimits.Valid
    decide
  have hdecode : RpcMessage.decode [0, 0, 0, 5, 0, 0, 0, 1, 0, 0, 0, 0, 0, 0, 0, 0, 0, 0, 0, 0,
      0, 0, 0, 0, 1, 2, 3, 4] = .ok ⟨5, .reply (.accepted ⟨.none, .success [1, 2, 3, 4]⟩)⟩ := by
    decide
  obtain ⟨outcome, target, hreceive, -, hreply, -⟩ := segmented_receive_agrees hvalid
    [[0, 0], [0, 0, 7]]
    (Record.single [0, 0, 0, 5, 0, 0, 0, 1, 0, 0, 0, 0, 0, 0, 0, 0, 0, 0, 0, 0,
      0, 0, 0, 0, 1, 2, 3, 4] (by unfold FragmentFits; decide))
    (by unfold Record.Within; decide) [] [9, 1]
    (by
      intro m hm
      cases hdecode.symm.trans hm
      decide)
  obtain ⟨rfl, hlen, htake, -, -⟩ := hreply _ hdecode rfl
  refine ⟨target, hreceive, ?_⟩
  rw [hlen] at htake
  exact htake

end OncRpc
