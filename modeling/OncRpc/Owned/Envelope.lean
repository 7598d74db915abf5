import OncRpc.Foundation.ReadProgram
import OncRpc.Runtime.Error
import OncRpc.Wire.RoundTrip

/-!
# Reading a reply envelope

`reply_header` reads the envelope of a reply into a scratch array of 432 bytes, a few words at a
time, and decodes only that.  It is a `ReadProgram`, since each of its reads may suspend.

The envelope read from the payload of a record is the header of the message the whole payload
decodes to (`replyHeader_complete`, `replyHeader_sound`), and no read goes past the scratch array
(`replyHeader_ensures`).
-/

namespace OncRpc

open Foundation Foundation.ReadProgram

/-- The length of the scratch array. -/
def envelopeCapacity : ℕ := 432

/-- A program that reads an envelope. -/
abbrev Envelope := ReadProgram RuntimeError

/-- Read the verifier and the status of an accepted reply. -/
def acceptedEnvelope (bytes : Bytes) : Envelope Bytes := do
  let (_, bytes) ← word envelopeCapacity bytes
  let (len, bytes) ← word envelopeCapacity bytes
  if len.toNat > maxAuthBytes then .fail (.wire (.authBodyTooLong len.toNat))
  else do
    let padded := (len.toNat + 3) / 4 * 4
    let bytes ← fill envelopeCapacity bytes padded
    let (stat, bytes) ← word envelopeCapacity bytes
    if stat = 2 then do
      let (_, bytes) ← word envelopeCapacity bytes
      let (_, bytes) ← word envelopeCapacity bytes
      return bytes
    else return bytes

/-- Read the reason of a denied reply. -/
def deniedEnvelope (bytes : Bytes) : Envelope Bytes := do
  let (reject, bytes) ← word envelopeCapacity bytes
  if reject = 0 then do
    let (_, bytes) ← word envelopeCapacity bytes
    let (_, bytes) ← word envelopeCapacity bytes
    return bytes
  else if reject = 1 then do
    let (_, bytes) ← word envelopeCapacity bytes
    return bytes
  else return bytes

/-- Read the body of a reply according to its status. -/
def replyEnvelope (reply : UInt32) (bytes : Bytes) : Envelope Bytes :=
  if reply = 0 then acceptedEnvelope bytes
  else if reply = 1 then deniedEnvelope bytes
  else return bytes

/-- Decode the bytes of an envelope. -/
def decodeEnvelope (bytes : Bytes) : Envelope RpcMessage :=
  match RpcMessage.decode bytes with
  | .ok message => .pure message
  | .error e => .fail (.wire e)

/-- Read the envelope of a reply whose transaction id has been read. -/
def replyHeader (xid : Bytes) : Envelope RpcMessage := do
  let (messageType, bytes) ← word envelopeCapacity xid
  if messageType = 1 then do
    let (reply, bytes) ← word envelopeCapacity bytes
    let bytes ← replyEnvelope reply bytes
    decodeEnvelope bytes
  else if messageType = 0 then .fail .unexpectedCallMessage
  else .fail (.wire (.invalidMessageType messageType))

/-! ## What the envelope program guarantees -/

/-- Reading an accepted body adds the bytes read to the array and stays in it. -/
theorem acceptedEnvelope_ensures {bytes : Bytes} (h : bytes.length ≤ 12) :
    (acceptedEnvelope bytes).Ensures fun out chunk => out = bytes ++ chunk := by
  have hcap : envelopeCapacity = 432 := rfl
  have hauth : maxAuthBytes = 400 := rfl
  refine (ensures_word (by omega)).bind ?_
  rintro ⟨flavor, bytes1⟩ c1 ⟨h1, rfl⟩
  simp only at h1 ⊢
  have hl1 : bytes1.length = bytes.length + 4 := by simp [h1]
  refine (ensures_word (by omega)).bind ?_
  rintro ⟨len, bytes2⟩ c2 ⟨h2, rfl⟩
  simp only at h2 ⊢
  have hl2 : bytes2.length = bytes.length + 8 := by simp [h2, hl1]
  split_ifs with hlen
  · trivial
  · refine (ensures_fill (by omega)).bind ?_
    rintro bytes3 c3 ⟨h3, hc3⟩
    have hl3 : bytes3.length = bytes.length + 8 + (len.toNat + 3) / 4 * 4 := by
      simp [h3, hl2, hc3]
    refine (ensures_word (by omega)).bind ?_
    rintro ⟨stat, bytes4⟩ c4 ⟨h4, rfl⟩
    simp only at h4 ⊢
    have hl4 : bytes4.length = bytes3.length + 4 := by simp [h4]
    split_ifs with hstat
    · refine (ensures_word (by omega)).bind ?_
      rintro ⟨low, bytes5⟩ c5 ⟨h5, rfl⟩
      simp only at h5 ⊢
      have hl5 : bytes5.length = bytes4.length + 4 := by simp [h5]
      refine (ensures_word (by omega)).bind ?_
      rintro ⟨high, bytes6⟩ c6 ⟨h6, rfl⟩
      simp only at h6 ⊢
      simp only [pure_eq, Ensures, h6, h5, h4, h3, h2, h1, List.append_assoc, List.append_nil]
    · simp only [pure_eq, Ensures, h4, h3, h2, h1, List.append_assoc, List.append_nil]

/-- Reading a denied body adds the bytes read to the array and stays in it. -/
theorem deniedEnvelope_ensures {bytes : Bytes} (h : bytes.length ≤ 12) :
    (deniedEnvelope bytes).Ensures fun out chunk => out = bytes ++ chunk := by
  have hcap : envelopeCapacity = 432 := rfl
  refine (ensures_word (by omega)).bind ?_
  rintro ⟨reject, bytes1⟩ c1 ⟨h1, rfl⟩
  simp only at h1 ⊢
  have hl1 : bytes1.length = bytes.length + 4 := by simp [h1]
  split_ifs with h0 h0'
  · refine (ensures_word (by omega)).bind ?_
    rintro ⟨low, bytes2⟩ c2 ⟨h2, rfl⟩
    simp only at h2 ⊢
    have hl2 : bytes2.length = bytes1.length + 4 := by simp [h2]
    refine (ensures_word (by omega)).bind ?_
    rintro ⟨high, bytes3⟩ c3 ⟨h3, rfl⟩
    simp only at h3 ⊢
    simp only [pure_eq, Ensures, h3, h2, h1, List.append_assoc, List.append_nil]
  · refine (ensures_word (by omega)).bind ?_
    rintro ⟨stat, bytes2⟩ c2 ⟨h2, rfl⟩
    simp only at h2 ⊢
    simp only [pure_eq, Ensures, h2, h1, List.append_assoc, List.append_nil]
  · simp only [pure_eq, Ensures, h1, List.append_nil]

theorem replyEnvelope_ensures (reply : UInt32) {bytes : Bytes} (h : bytes.length ≤ 12) :
    (replyEnvelope reply bytes).Ensures fun out chunk => out = bytes ++ chunk := by
  unfold replyEnvelope
  split_ifs
  · exact acceptedEnvelope_ensures h
  · exact deniedEnvelope_ensures h
  · simp [pure_eq, Ensures]

/-- The envelope stays in its scratch array, and its result is decoded from exactly the bytes
read, the first of which name a reply. -/
theorem replyHeader_ensures {xid : Bytes} (h : xid.length = 4) :
    (replyHeader xid).Ensures fun message chunk =>
      RpcMessage.decode (xid ++ chunk) = .ok message ∧ ∃ rest, chunk = beBytes 1 ++ rest := by
  have hcap : envelopeCapacity = 432 := rfl
  refine (ensures_word (by omega)).bind ?_
  rintro ⟨messageType, bytes1⟩ c1 ⟨h1, rfl⟩
  simp only at h1 ⊢
  have hl1 : bytes1.length = 8 := by simp [h1, h]
  split_ifs with htype hzero
  · refine (ensures_word (by omega)).bind ?_
    rintro ⟨reply, bytes2⟩ c2 ⟨h2, rfl⟩
    simp only at h2 ⊢
    have hl2 : bytes2.length = 12 := by simp [h2, hl1]
    refine (replyEnvelope_ensures reply (by omega)).bind ?_
    rintro bytes3 c3 rfl
    unfold decodeEnvelope
    split
    · next message hdecode =>
      rw [h2, h1] at hdecode
      simp only [List.append_assoc] at hdecode
      simp only [Ensures, List.append_nil, htype]
      rw [htype] at hdecode
      exact ⟨hdecode, _, rfl⟩
    · trivial
  · trivial
  · trivial

/-! ## Agreement with the decoder -/

theorem padded_eq (len : ℕ) : (len + 3) / 4 * 4 = len + xdrPadding len := by
  unfold xdrPadding
  omega

/-- An accepted body is read up to the end of its status. -/
theorem acceptedEnvelope_run (bytes : Bytes) (h : bytes.length = 12) {auth : OpaqueAuth}
    (hf : auth.Fits) (stat : UInt32) (fields : Bytes)
    (hfields : if stat = 2 then ∃ low high, fields = beBytes low ++ beBytes high else fields = [])
    (tail : Bytes) :
    (acceptedEnvelope bytes).run recordEof (auth.wire ++ (beBytes stat ++ (fields ++ tail))) =
      some (.ok (bytes ++ (auth.wire ++ (beBytes stat ++ fields)), tail)) := by
  have hcap : envelopeCapacity = 432 := rfl
  have hauth : maxAuthBytes = 400 := rfl
  unfold OpaqueAuth.Fits at hf
  have hlen : (UInt32.ofNat auth.body.length).toNat = auth.body.length := by
    rw [UInt32.toNat_ofNat']
    omega
  have hpad := padded_eq auth.body.length
  have hbody : (auth.body ++ List.replicate (xdrPadding auth.body.length) (0 : UInt8)).length =
      (auth.body.length + 3) / 4 * 4 := by
    rw [List.length_append, List.length_replicate, hpad]
  unfold acceptedEnvelope OpaqueAuth.wire
  simp only [List.append_assoc]
  rw [bind_eq, run_bind_of_ok _ (run_word _ (by omega) _ _)]
  simp only
  rw [bind_eq, run_bind_of_ok _ (run_word _ (by simp [h, hcap]) _ _)]
  simp only [hlen]
  rw [if_neg (by omega), ← List.append_assoc auth.body, bind_eq,
    run_bind_of_ok _
      (run_fill _ (by simp only [List.length_append, beBytes_length]; omega) hbody _),
    bind_eq,
    run_bind_of_ok _ (run_word _ (by
      simp only [List.length_append, beBytes_length, List.length_replicate]; omega) _ _)]
  simp only
  split_ifs at hfields ⊢ with hstat
  · obtain ⟨low, high, rfl⟩ := hfields
    rw [List.append_assoc (beBytes low), bind_eq,
      run_bind_of_ok _ (run_word _ (by
        simp only [List.length_append, beBytes_length, List.length_replicate]; omega) _ _)]
    simp only
    rw [bind_eq, run_bind_of_ok _ (run_word _ (by
        simp only [List.length_append, beBytes_length, List.length_replicate]; omega) _ _)]
    simp [pure_eq]
  · simp [pure_eq, hfields]

/-- A denied body is read up to the end of its reason. -/
theorem deniedEnvelope_run {bytes : Bytes} (h : bytes.length = 12) (reply : RejectedReply)
    (tail : Bytes) :
    (deniedEnvelope bytes).run recordEof (reply.wire ++ tail) =
      some (.ok (bytes ++ reply.wire, tail)) := by
  have hcap : envelopeCapacity = 432 := rfl
  unfold deniedEnvelope RejectedReply.wire
  rw [List.append_assoc, bind_eq, run_bind_of_ok _ (run_word _ (by omega) _ _)]
  simp only
  cases reply with
  | rpcMismatch range =>
    rw [if_pos (by rfl)]
    simp only [RejectedReply.fields, List.append_assoc]
    rw [bind_eq, run_bind_of_ok _ (run_word _ (by simp [h, hcap]) _ _)]
    simp only
    rw [bind_eq, run_bind_of_ok _ (run_word _ (by simp [h, hcap]) _ _)]
    simp [pure_eq]
  | authError status =>
    have hstat : (RejectedReply.authError status).stat.number = 1 := rfl
    rw [if_neg (by rw [hstat]; decide), if_pos hstat]
    simp only [RejectedReply.fields]
    rw [bind_eq, run_bind_of_ok _ (run_word _ (by simp [h, hcap]) _ _)]
    simp [pure_eq]

/-- Taking the payload away does not change the spelling of a message. -/
theorem RpcMessage.header_isCanonical (m : RpcMessage) : m.header.IsCanonical ↔ m.IsCanonical := by
  obtain ⟨xid, body⟩ := m
  match body with
  | .call call => rfl
  | .reply (.accepted ⟨verifier, status⟩) => cases status <;> rfl
  | .reply (.denied reply) => rfl

theorem decodeEnvelope_ok {bytes : Bytes} {m : RpcMessage} (h : RpcMessage.decode bytes = .ok m) :
    decodeEnvelope bytes = .pure m := by
  unfold decodeEnvelope
  rw [h]

/-- The envelope of a reply, from the program for its body. -/
theorem replyHeader_run (xid messageType reply : UInt32) {m : RpcMessage}
    {body : Bytes} (tail : Bytes) (htype : messageType = 1)
    (hdecode : RpcMessage.decode (beBytes xid ++ (beBytes messageType ++ (beBytes reply ++ body))) =
      .ok m)
    (hbody : (replyEnvelope reply (beBytes xid ++ beBytes messageType ++ beBytes reply)).run
      recordEof (body ++ tail) =
        some (.ok (beBytes xid ++ beBytes messageType ++ beBytes reply ++ body, tail))) :
    (replyHeader (beBytes xid)).run recordEof
      (beBytes messageType ++ (beBytes reply ++ (body ++ tail))) = some (.ok (m, tail)) := by
  have hcap : envelopeCapacity = 432 := rfl
  unfold replyHeader
  rw [bind_eq, run_bind_of_ok _ (run_word _ (by rw [beBytes_length, hcap]; omega) _ _)]
  simp only
  rw [if_pos htype, bind_eq, run_bind_of_ok _ (run_word _
    (by rw [List.length_append, beBytes_length, beBytes_length, hcap]; omega) _ _)]
  simp only
  rw [bind_eq, run_bind_of_ok _ hbody, decodeEnvelope_ok
    (by rw [List.append_assoc, List.append_assoc]; exact hdecode), run_pure]

/-- The envelope read from the wire form of a reply, whatever follows its header, is its header. -/
theorem replyHeader_complete {m : RpcMessage} (hreply : m.isReply = true) (hc : m.IsCanonical)
    (hf : m.Fits) (tail : Bytes) :
    ∃ rest, m.header.wire = beBytes m.xid ++ rest ∧
      (replyHeader (beBytes m.xid)).run recordEof (rest ++ tail) = some (.ok (m.header, tail)) := by
  have hdecode : RpcMessage.decode m.header.wire = .ok m.header :=
    (RpcMessage.decode_eq_ok_iff_wire _ _).mpr
      ⟨m.header_isCanonical.mpr hc, m.header_fits.mpr hf, rfl⟩
  obtain ⟨xid, body⟩ := m
  cases body with
  | call call => cases hreply
  | reply reply =>
    cases reply with
    | accepted reply =>
      obtain ⟨verifier, status⟩ := reply
      have hwire : (RpcMessage.header ⟨xid, .reply (.accepted ⟨verifier, status⟩)⟩).wire =
          beBytes xid ++ (beBytes 1 ++ (beBytes 0 ++ (verifier.wire ++ status.header.wire))) := by
        simp only [RpcMessage.header, RpcMessage.wire, ReplyBody.wire, MessageType.number,
          ReplyStat.number]
      rw [hwire] at hdecode
      have hrun := acceptedEnvelope_run (beBytes xid ++ beBytes 1 ++ beBytes 0)
        (by simp only [List.length_append, beBytes_length]) hf status.header.stat.number
        status.header.fields
        (by cases status <;> first | exact ⟨_, _, rfl⟩ | rfl) tail
      have h := replyHeader_run xid 1 0 tail rfl hdecode (by
        rw [replyEnvelope, if_pos (by rfl), AcceptedStatus.wire]
        simpa only [List.append_assoc] using hrun)
      refine ⟨_, hwire, ?_⟩
      simpa only [List.append_assoc] using h
    | denied reply =>
      have hwire : (RpcMessage.header ⟨xid, .reply (.denied reply)⟩).wire =
          beBytes xid ++ (beBytes 1 ++ (beBytes 1 ++ reply.wire)) := by
        simp only [RpcMessage.header, RpcMessage.wire, ReplyBody.wire, MessageType.number,
          ReplyStat.number]
      rw [hwire] at hdecode
      have h := replyHeader_run xid 1 1 tail rfl hdecode (by
        rw [replyEnvelope, if_neg (by decide), if_pos (by rfl)]
        exact deniedEnvelope_run (by simp only [List.length_append, beBytes_length]) reply tail)
      refine ⟨_, hwire, ?_⟩
      simpa only [List.append_assoc] using h

/-- An envelope that was read is a reply without payload, and the payload of the record starts with
its wire form. -/
theorem replyHeader_sound {xid rest tail : Bytes} {m : RpcMessage} (h4 : xid.length = 4)
    (h : (replyHeader xid).run recordEof rest = some (.ok (m, tail))) :
    m.isReply = true ∧ m.IsCanonical ∧ m.Fits ∧ m.header = m ∧ xid ++ rest = m.wire ++ tail := by
  rcases (replyHeader_ensures h4).run recordEof rest with ⟨e, he⟩
    | ⟨m', chunk, tail', hrun, hrest, hQ⟩
  · rw [he] at h
    cases h
  · rw [hrun] at h
    cases h
    obtain ⟨hdecode, after, hafter⟩ := hQ
    obtain ⟨hc, hf, hwire⟩ := (RpcMessage.decode_eq_ok_iff_wire _ _).mp hdecode
    -- The message type of a call is zero, not one.
    have hreply : m.isReply = true := by
      obtain ⟨xid', body⟩ := m
      cases body with
      | reply reply => rfl
      | call call =>
        rw [hafter, ← beBytes_wordOf h4] at hwire
        simp [RpcMessage.wire, MessageType.number] at hwire
    obtain ⟨rest', hheader, hrun'⟩ := replyHeader_complete hreply hc hf (m.payload ++ tail)
    have hsplit : xid ++ chunk = beBytes m.xid ++ (rest' ++ m.payload) := by
      rw [hwire, m.wire_eq_header_append, hheader, List.append_assoc]
    obtain ⟨hxid, hchunk⟩ := List.append_inj hsplit (by rw [h4, beBytes_length])
    rw [hxid, hrest, hchunk, List.append_assoc, hrun'] at hrun
    simp only [Option.some.injEq, Except.ok.injEq, Prod.mk.injEq] at hrun
    refine ⟨hreply, hc, hf, hrun.1, ?_⟩
    rw [hrest, ← List.append_assoc, hwire]

end OncRpc
