import OncRpc.Record.Write
import OncRpc.Wire.RoundTrip

/-!
# Requests and their admission charge

A classic call encodes its whole message into one segment; a segmented call encodes an envelope
with an empty payload and sends the caller's segments after it.  Before either is admitted its
charge is computed without putting the payload together.  The sizes of the two inline types the
charge counts are parameters, as their layout is the compiler's.
-/

namespace OncRpc

open Foundation

/-- A call envelope with an empty payload, and the segments of the payload. -/
structure SegmentedRequest where
  header : RpcMessage
  payload : List Bytes

section Charge

-- The sizes of `RpcMessage` and of `Bytes` values.
variable (sizeOfMessage sizeOfBytes : ℕ)

/-- Turn the absence of a size into an error. -/
def sizeOr (size : Option ℕ) (text : String) : Except RuntimeError ℕ :=
  match size with
  | some n => .ok n
  | none => .error (.transport text)

/-- The envelope holds a call without payload. -/
def SegmentedRequest.requireEnvelope (q : SegmentedRequest) : Except RuntimeError Unit :=
  match q.header.body with
  | .call call =>
    if call.payload = [] then .ok ()
    else .error (.transport "segmented request requires an empty call envelope")
  | .reply _ => .error (.transport "segmented request requires an empty call envelope")

/-- The encoded envelope and the charge of a segmented request. -/
def SegmentedRequest.prepare (q : SegmentedRequest) : Except RuntimeError (Bytes × ℕ) := do
  q.requireEnvelope
  let header ← q.header.encode.mapError .wire
  let wireBytes ← sizeOr
    ((q.payload.foldlM (fun n segment => checkedAdd n segment.length) header.length).filter
      (· ≤ maxFragmentLen.toNat)) "segmented request exceeds RPC fragment limit"
  let descriptorBytes ← sizeOr
    ((checkedAdd q.payload.length 1).bind fun n => checkedMul n sizeOfBytes)
    "RPC descriptor charge overflow"
  let charge ← sizeOr ((checkedAdd wireBytes 4).bind fun n => checkedAdd n descriptorBytes)
    "RPC admission charge overflow"
  return (header, charge)

/-- The segments a segmented call writes. -/
def SegmentedRequest.segments (q : SegmentedRequest) : Except RuntimeError (List Bytes) := do
  let (header, _) ← q.prepare sizeOfBytes
  return header :: q.payload

/-- The charge of a classic call, from an encoding of its envelope only. -/
def messageAdmissionBytes (message : RpcMessage) : Except RuntimeError ℕ := do
  let header := message.header
  let payload := message.payload.length
  let encoded ← header.encode.mapError .wire
  sizeOr ((checkedAdd encoded.length payload).bind fun n => checkedAdd n (4 + sizeOfMessage))
    "RPC admission charge overflow"

/-- The segments a classic call writes: its charge is computed first, then its encoding. -/
def RpcMessage.segments (message : RpcMessage) : Except RuntimeError (List Bytes) := do
  let _ ← messageAdmissionBytes sizeOfMessage message
  let encoded ← message.encode.mapError .wire
  return [encoded]

end Charge

/-! ## Sizes -/

theorem sizeOr_eq_ok {size : Option ℕ} {text : String} {n : ℕ} :
    sizeOr size text = .ok n ↔ size = some n := by
  cases size <;> simp [sizeOr]

/-- The checked sum of the segments, when it fits one fragment. -/
theorem foldlM_checkedAdd_eq_some {segments : List Bytes} {start n : ℕ} :
    segments.foldlM (fun n segment => checkedAdd n segment.length) start = some n ∧
        n ≤ maxFragmentLen.toNat ↔
      n = start + segments.flatten.length ∧ n ≤ maxFragmentLen.toNat := by
  have hmax : maxFragmentLen.toNat = 2 ^ 31 - 1 := rfl
  induction segments generalizing start with
  | nil =>
    simp only [List.foldlM_nil, List.flatten_nil, List.length_nil, Nat.add_zero, pure,
      Option.some.injEq, eq_comm]
  | cons segment segments ih =>
    rw [List.foldlM_cons, List.flatten_cons, List.length_append, ← Nat.add_assoc]
    by_cases h : start + segment.length ≤ usizeMax
    · have hadd : checkedAdd start segment.length = some (start + segment.length) := if_pos h
      rw [hadd]
      exact ih
    · have hadd : checkedAdd start segment.length = none := if_neg h
      rw [hadd]
      simp only [bind, Option.bind_none, reduceCtorEq, false_and, false_iff]
      unfold usizeMax at h
      omega

/-- The envelope of a call and the payload it is sent with. -/
def RpcMessage.withPayload (m : RpcMessage) (payload : Bytes) : RpcMessage :=
  match m.body with
  | .call call => { m with body := .call { call with payload := payload } }
  | .reply _ => m

section Prepare

variable {sizeOfBytes : ℕ} {q : SegmentedRequest} {header : Bytes} {charge : ℕ}

theorem requireEnvelope_eq_ok :
    q.requireEnvelope = .ok () ↔ ∃ call, q.header.body = .call call ∧ call.payload = [] := by
  unfold SegmentedRequest.requireEnvelope
  cases hbody : q.header.body with
  | call call => by_cases hp : call.payload = [] <;> simp [hp]
  | reply reply => simp

/-- Preparing a segmented request succeeds exactly for an envelope that encodes, a frame that fits
and a charge that does not overflow; the charge is the size of the frame and of the descriptors. -/
theorem prepare_eq_ok_iff :
    q.prepare sizeOfBytes = .ok (header, charge) ↔
      (∃ call, q.header.body = .call call ∧ call.payload = []) ∧ q.header.encode = .ok header ∧
        header.length + q.payload.flatten.length < 2 ^ 31 ∧
        charge = header.length + q.payload.flatten.length + 4 +
          (q.payload.length + 1) * sizeOfBytes ∧
        charge ≤ usizeMax ∧ (q.payload.length + 1) ≤ usizeMax := by
  unfold SegmentedRequest.prepare
  simp only [except_bind_eq_ok, mapError_eq_ok, sizeOr_eq_ok, Option.filter_eq_some_iff,
    Option.bind_eq_some_iff, checkedAdd_eq_some, checkedMul_eq_some, pure, Except.pure,
    Except.ok.injEq, Prod.mk.injEq, decide_eq_true_eq, foldlM_checkedAdd_eq_some]
  have hmax : maxFragmentLen.toNat = 2 ^ 31 - 1 := rfl
  constructor
  · rintro ⟨_, henv, h, henc, wire, ⟨rfl, hwire⟩, desc, ⟨n, ⟨rfl, hn⟩, rfl, hdesc⟩, c,
      ⟨k, ⟨rfl, hk⟩, rfl, hc⟩, rfl, rfl⟩
    exact ⟨requireEnvelope_eq_ok.mp henv, henc, by omega, rfl, hc, hn⟩
  · rintro ⟨henv, henc, hfit, rfl, hc, hn⟩
    exact ⟨(), requireEnvelope_eq_ok.mpr henv, header, henc, _, ⟨rfl, by omega⟩, _,
      ⟨_, ⟨rfl, hn⟩, rfl, by omega⟩, _, ⟨_, ⟨rfl, by omega⟩, rfl, hc⟩, rfl, rfl⟩

end Prepare

/-! ## The charge of a classic call -/

/-- The encoding of a message is the encoding of its envelope followed by its payload. -/
theorem encode_eq_header_append {m : RpcMessage} {b : Bytes} (h : m.encode = .ok b) :
    ∃ header, m.header.encode = .ok header ∧ b = header ++ m.payload := by
  obtain ⟨hfits, rfl⟩ := (m.encode_eq_ok_iff b).mp h
  exact ⟨m.header.wire, (m.header.encode_eq_ok_iff _).mpr ⟨m.header_fits.mpr hfits, rfl⟩,
    m.wire_eq_header_append⟩

/-- The charge equals the size of the frame and of the message value. -/
theorem messageAdmissionBytes_eq (sizeOfMessage : ℕ) {m : RpcMessage} {b : Bytes}
    (h : m.encode = .ok b) (hsize : b.length + 4 + sizeOfMessage ≤ usizeMax) :
    messageAdmissionBytes sizeOfMessage m = .ok (b.length + 4 + sizeOfMessage) := by
  obtain ⟨header, hheader, rfl⟩ := encode_eq_header_append h
  rw [List.length_append] at hsize ⊢
  unfold messageAdmissionBytes
  simp only [except_bind_eq_ok, mapError_eq_ok, sizeOr_eq_ok, Option.bind_eq_some_iff,
    checkedAdd_eq_some]
  exact ⟨header, hheader, _, ⟨rfl, by omega⟩, by omega, by omega⟩

/-! ## Both ways of sending a call -/

/-- A call with a payload is refused for the same reason as its envelope, or encodes to the
encoded envelope followed by the payload. -/
theorem encode_withPayload {m : RpcMessage} {call : CallBody} (hbody : m.body = .call call)
    (hempty : call.payload = []) (payload : Bytes) :
    (m.withPayload payload).encode = m.encode.map (· ++ payload) := by
  obtain ⟨xid, body⟩ := m
  simp only at hbody
  subst hbody
  simp only [RpcMessage.withPayload, RpcMessage.encode, hempty]
  cases hc : call.credentials.encodeInto _ with
  | error e => rfl
  | ok output =>
    simp only [bind, Except.bind]
    cases hv : call.verifier.encodeInto _ with
    | error e => rfl
    | ok output => simp [pure, Except.pure, Except.map]

theorem withPayload_header {m : RpcMessage} {call : CallBody} (hbody : m.body = .call call)
    (hempty : call.payload = []) (payload : Bytes) : (m.withPayload payload).header = m := by
  obtain ⟨xid, body⟩ := m
  obtain ⟨version, program, procedure, credentials, verifier, empty⟩ := call
  simp only at hbody hempty
  subst hbody hempty
  rfl

/-- A segmented call and the classic call with the concatenated payload are refused alike or put
the same frame on the stream; and both charges are exact. -/
theorem segmented_send_agrees (sizeOfMessage sizeOfBytes : ℕ) :
    (∀ (h : RpcMessage) (call : CallBody) (s : List Bytes), h.body = .call call →
      call.payload = [] →
      (∀ header, h.encode = .ok header → header.length + s.flatten.length ≤ maxFragmentLen.toNat ∧
        header.length + s.flatten.length + 4 + sizeOfMessage ≤ usizeMax ∧
        header.length + s.flatten.length + 4 + (s.length + 1) * sizeOfBytes ≤ usizeMax ∧
        s.length + 1 ≤ usizeMax) →
      (∃ e, SegmentedRequest.segments sizeOfBytes ⟨h, s⟩ = .error e ∧
        (h.withPayload s.flatten).segments sizeOfMessage = .error e) ∨
      (∃ segments classic bytes, SegmentedRequest.segments sizeOfBytes ⟨h, s⟩ = .ok segments ∧
        (h.withPayload s.flatten).segments sizeOfMessage = .ok classic ∧
        ∀ sizes sizes', writeSegments segments sizes = (.ok (), bytes) ∧
          writeSegments classic sizes' = (.ok (), bytes))) ∧
    (∀ (m : RpcMessage) (b : Bytes), m.encode = .ok b →
      b.length + 4 + sizeOfMessage ≤ usizeMax →
      messageAdmissionBytes sizeOfMessage m = .ok (b.length + 4 + sizeOfMessage)) ∧
    (∀ (q : SegmentedRequest) (header : Bytes) (charge : ℕ),
      q.prepare sizeOfBytes = .ok (header, charge) → ∀ sizes, ∃ bytes,
        writeSegments (header :: q.payload) sizes = (.ok (), bytes) ∧
        charge = bytes.length + (q.payload.length + 1) * sizeOfBytes) := by
  refine ⟨?_, ?_, ?_⟩
  · intro h call s hbody hempty hfit
    have hclassic := encode_withPayload hbody hempty s.flatten
    cases henc : h.encode with
    | error e =>
      -- Neither path gets past encoding the envelope.
      refine .inl ⟨.wire e, ?_, ?_⟩
      · have henv : SegmentedRequest.requireEnvelope ⟨h, s⟩ = .ok () :=
          requireEnvelope_eq_ok.mpr ⟨call, hbody, hempty⟩
        simp only [SegmentedRequest.segments, SegmentedRequest.prepare, henv, henc]
        rfl
      · simp only [RpcMessage.segments, messageAdmissionBytes,
          withPayload_header hbody hempty, henc]
        rfl
    | ok header =>
      obtain ⟨hframe, hcharge, hdesc, hcount⟩ := hfit header henc
      have hmax : maxFragmentLen.toNat = 2 ^ 31 - 1 := rfl
      have hprepare : SegmentedRequest.prepare sizeOfBytes ⟨h, s⟩ = .ok (header, _) :=
        prepare_eq_ok_iff.mpr ⟨⟨call, hbody, hempty⟩, henc, by simp only; omega, rfl, hdesc, hcount⟩
      have hencode : (h.withPayload s.flatten).encode = .ok (header ++ s.flatten) := by
        rw [hclassic, henc]
        rfl
      have hadmit := messageAdmissionBytes_eq sizeOfMessage hencode
        (by rw [List.length_append]; omega)
      refine .inr ⟨header :: s, [header ++ s.flatten], frame (header :: s), ?_, ?_, ?_⟩
      · simp only [SegmentedRequest.segments, hprepare]
        rfl
      · simp only [RpcMessage.segments, hadmit, hencode]
        rfl
      · intro sizes sizes'
        have hlen : header.length + s.flatten.length < 2 ^ 31 := by omega
        constructor
        · rw [writeSegments_eq, if_pos (by rw [List.flatten_cons, List.length_append]; exact hlen)]
        · rw [writeSegments_eq, if_pos (by simpa using hlen)]
          simp [frame]
  · intro m b hb hsize
    exact messageAdmissionBytes_eq sizeOfMessage hb hsize
  · intro q header charge hprepare sizes
    obtain ⟨-, -, hfit, hcharge, -, -⟩ := prepare_eq_ok_iff.mp hprepare
    have hlen : (header :: q.payload).flatten.length = header.length + q.payload.flatten.length :=
      by
      simp
    refine ⟨frame (header :: q.payload), ?_, ?_⟩
    · rw [writeSegments_eq, if_pos (by rw [hlen]; exact hfit)]
    · rw [hcharge, frame, fragment_length, hlen]
      omega

end OncRpc
