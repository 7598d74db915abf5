import OncRpc.Owned.Lease
import OncRpc.Owned.DirectOutcome
import OncRpc.Runtime.Xid

/-!
# Refused calls

Four entry points admit a call on a connection: `try_call` and `try_call_into` take a message or an
envelope with its segments, `try_call_xdr_into` and `try_call_xdr_segmented` take a typed argument,
draw a transaction id and then do as `try_call_into` does.  Each is refused before a future exists,
and gives back what it was called with.

A connection that is shared holds the receivers of all its calls behind one trait object.  The entry
points are therefore generic in the type of the receiver: `box` is its place in the connection's
type, and `size` its inline size, which is charged.

`Leased.tryCall_admits` and `Leased.tryCallInto_admits` connect the entry points to the connection:
a call that is not refused is an admission step of it.
-/

namespace OncRpc

open Foundation

variable {R : Type}

/-! ## The transaction id -/

/-- Draw a transaction id, with no other task in between. -/
def allocateXid (counter : UInt32) : Except RuntimeError Xid × UInt32 :=
  if counter = XidAllocator.maxWord then (.error xidExhausted, counter)
  else (.ok counter, counter + 1)

/-- A call of the allocator that runs alone loads the counter and exchanges it. -/
theorem XidAllocator.runs_allocateXid (s : XidAllocator) (call : ℕ) (hidle : s.calls call = .idle)
    (hpos : 1 ≤ s.counter) : ∃ t, Runs XidAllocator.step (fun _ _ => True) s t ∧
      t.calls call = .done (allocateXid s.counter).1 ∧ t.counter = (allocateXid s.counter).2 := by
  have hload : s.step (.load call s.counter) = some (s.put call (.trying s.counter)) :=
    if_pos ⟨hidle, hpos, UInt32.le_refl _⟩
  have hrun : Runs XidAllocator.step (fun _ _ => True) s (s.put call (.trying s.counter)) :=
    (Runs.refl s).tail trivial hload
  have htrying : (s.put call (.trying s.counter)).calls call = .trying s.counter :=
    Function.update_self ..
  unfold allocateXid
  by_cases hlast : s.counter = maxWord
  · have hstep : (s.put call (.trying s.counter)).step (.exhaust call) =
        some ((s.put call (.trying s.counter)).put call (.done (.error xidExhausted))) := by
      simp only [step, htrying]
      exact if_pos hlast
    refine ⟨_, hrun.tail trivial hstep, ?_, ?_⟩
    · rw [if_pos hlast]
      exact Function.update_self ..
    · rw [if_pos hlast]
      rfl
  · have hstep : (s.put call (.trying s.counter)).step (.exchange call) =
        some { (s.put call (.trying s.counter)).put call (.done (.ok s.counter)) with
          counter := s.counter + 1
          log := s.log ++ [(call, s.counter)] } := by
      simp only [step, htrying]
      exact if_pos ⟨hlast, rfl⟩
    refine ⟨_, hrun.tail trivial hstep, ?_, ?_⟩
    · rw [if_neg hlast]
      exact Function.update_self ..
    · rw [if_neg hlast]

/-! ## Requests of typed calls -/

/-- A value that encodes into segments. -/
class XdrEncodeSegments (A : Type) where
  toXdrSegments : A → Except XdrError (List Bytes)

/-- A void argument has no segments. -/
instance : XdrEncodeSegments Unit where
  toXdrSegments _ := .ok []

/-- What a client sends with every call. -/
structure ClientConfig where
  credentials : OpaqueAuth
  verifier : OpaqueAuth
  deriving DecidableEq

/-- The options of a typed call: what governs its wait, and what replaces the client's credentials
and verifier. -/
structure TypedCallOptions where
  wait : CallOptions
  credentials : Option OpaqueAuth
  verifier : Option OpaqueAuth
  deriving DecidableEq

/-- A call to a procedure, with its own credentials and verifier. -/
structure CallRequest where
  program : ProgramVersion
  procedure : Procedure
  credentials : OpaqueAuth
  verifier : OpaqueAuth
  payload : Bytes
  deriving DecidableEq

/-- A call without credentials of its own. -/
def CallRequest.new (program : ProgramVersion) (procedure : Procedure) (payload : Bytes) :
    CallRequest :=
  ⟨program, procedure, .none, .none, payload⟩

/-- The message of a call; the client's credentials and verifier stand in for missing ones. -/
def buildRequestMessage (config : ClientConfig) (xid : Xid) (request : CallRequest) : RpcMessage :=
  let credentials :=
    if request.credentials = .none then config.credentials else request.credentials
  let verifier := if request.verifier = .none then config.verifier else request.verifier
  ⟨xid, .call ⟨2, request.program, request.procedure, credentials, verifier, request.payload⟩⟩

/-- The message of a call with the credentials and the verifier of its options. -/
def buildRequestMessageWithOptions (config : ClientConfig) (xid : Xid) (request : CallRequest)
    (options : TypedCallOptions) : RpcMessage :=
  let message := buildRequestMessage config xid request
  match message.body with
  | .call call =>
    { message with
      body := .call
        { call with
          credentials := options.credentials.getD call.credentials
          verifier := options.verifier.getD call.verifier } }
  | .reply _ => message

/-! ## Refusals -/

/-- A call that was refused, with what it was called with. -/
structure CallRefusal (Q P : Type) where
  reason : AdmissionError
  request : Q
  receiver : P
  requiredBytes : ℕ

namespace Leased

/-- A future that is admitted and not yet polled. -/
def spawn (s : Leased R) (permit : AdmissionPermit) (admission : AdmissionState) (xid : Xid)
    (segments : List Bytes) (sender : ResponseSender R) (options : CallOptions) : Leased R where
  conn :=
    { s.conn with
      calls := Function.update s.conn.calls s.conn.created
        { Call.absent with
          xid := xid, segments := segments, sender := sender, options := options,
          phase := .admitted }
      created := s.conn.created + 1 }
  admission := admission
  leases := Function.update s.leases s.conn.created ⟨permit, true, .held⟩

/-- Admit a classic call.  Its future encodes the message when it is polled. -/
def tryCall (cfg : Config) (s : Leased R) (request : RpcMessage) (options : CallOptions) :
    Except (CallRefusal RpcMessage Unit) ℕ × Leased R :=
  match messageAdmissionBytes cfg.sizeOfMessage request with
  | .error error => (.error ⟨.invalidRequest error, request, (), 0⟩, s)
  | .ok bytes =>
    match s.admission.tryAcquire bytes with
    | (.error reason, admission) =>
      (.error ⟨reason, request, (), bytes⟩, { s with admission := admission })
    | (.ok permit, admission) =>
      let segments := request.encode.toOption.toList
      (.ok s.conn.created, s.spawn permit admission request.xid segments .buffered options)

/-- Admit a call whose payload is in segments, with a receiver for its reply. -/
def tryCallInto {P : Type} (cfg : Config) (s : Leased R) (box : P → R) (size : ℕ)
    (request : SegmentedRequest) (receiver : P) (options : CallOptions) :
    Except (CallRefusal SegmentedRequest P) ℕ × Leased R :=
  match request.prepare cfg.sizeOfBytes with
  | .error error => (.error ⟨.invalidRequest error, request, receiver, 0⟩, s)
  | .ok (header, charge) =>
    match checkedAdd charge size with
    | none =>
      (.error ⟨.invalidRequest (.transport "RPC receiver charge overflow"), request, receiver, 0⟩,
        s)
    | some requiredBytes =>
      match s.admission.tryAcquire requiredBytes with
      | (.error reason, admission) =>
        (.error ⟨reason, request, receiver, requiredBytes⟩, { s with admission := admission })
      | (.ok permit, admission) =>
        (.ok s.conn.created, s.spawn permit admission request.header.xid (header :: request.payload)
          (.segmented ⟨box receiver, 0⟩) options)

end Leased

/-! ## Admissions and refusals -/

/-- A classic message that is charged can be encoded. -/
theorem encode_of_messageAdmissionBytes {sizeOfMessage bytes : ℕ} {message : RpcMessage}
    (h : messageAdmissionBytes sizeOfMessage message = .ok bytes) :
    ∃ encoded, message.encode = .ok encoded := by
  unfold messageAdmissionBytes at h
  obtain ⟨header, hheader, -⟩ := except_bind_eq_ok.mp h
  obtain ⟨hfits, -⟩ := (message.header.encode_eq_ok_iff _).mp (mapError_eq_ok.mp hheader)
  exact ⟨message.wire, (message.encode_eq_ok_iff _).mpr ⟨message.header_fits.mp hfits, rfl⟩⟩

/-- A refused acquisition leaves the counters. -/
theorem AdmissionState.eq_of_tryAcquire_error {s s' : AdmissionState} {bytes : ℕ}
    {reason : AdmissionError} (h : s.tryAcquire bytes = (.error reason, s')) : s' = s := by
  unfold tryAcquire at h
  split at h
  · exact (Prod.mk.inj h).2.symm
  · cases h

namespace Leased

variable {cfg : Config} {s s' : Leased R} {options : CallOptions} {id : ℕ}

/-- A request whose charge was acquired is admitted by the connection. -/
theorem admitCall_of_acquired {request : Request R} {bytes : ℕ} {xid : Xid} {segments : List Bytes}
    {sender : ResponseSender R} {permit : AdmissionPermit} {admission : AdmissionState}
    (hcharge : request.charge cfg = .ok bytes)
    (hprepare : request.prepare cfg = .ok (xid, segments, sender))
    (hacquire : s.admission.tryAcquire bytes = (.ok permit, admission))
    (hopen : s.conn.released = false) :
    s.admitCall cfg request options = some (s.spawn permit admission xid segments sender options) :=
      by
  unfold admitCall Conn.admitCall
  rw [hcharge]
  simp only [hacquire, hprepare]
  rw [if_neg (by rw [hopen]; exact Bool.false_ne_true)]
  rfl

/-- A classic call that is not refused is an admission step of the connection. -/
theorem tryCall_admits [ReplyReceiver R] {request : RpcMessage}
    (h : s.tryCall cfg request options = (.ok id, s')) (hopen : s.conn.released = false) :
    id = s.conn.created ∧ s.step cfg (.conn (.admitCall (.classic request) options)) = some s' := by
  unfold tryCall at h
  split at h
  · cases h
  · next bytes hbytes =>
    split at h
    · cases h
    · next permit admission hacquire =>
      obtain ⟨encoded, hencode⟩ := encode_of_messageAdmissionBytes hbytes
      obtain ⟨hid, rfl⟩ := Prod.mk.inj h
      refine ⟨(Except.ok.inj hid).symm, ?_⟩
      have hprepare : (Request.classic request : Request R).prepare cfg =
          .ok (request.xid, request.encode.toOption.toList, .buffered) := by
        simp only [Request.prepare, RpcMessage.segments, hbytes, hencode]
        rfl
      exact admitCall_of_acquired hbytes hprepare hacquire hopen

/-- So is a segmented call. -/
theorem tryCallInto_admits [ReplyReceiver R] {P : Type} {box : P → R} {size : ℕ}
    {request : SegmentedRequest} {receiver : P}
    (h : s.tryCallInto cfg box size request receiver options = (.ok id, s'))
    (hopen : s.conn.released = false) :
    id = s.conn.created ∧ s.step { cfg with sizeOfReceiver := size }
      (.conn (.admitCall (.into request (box receiver)) options)) = some s' := by
  unfold tryCallInto at h
  split at h
  · cases h
  · next header charge hprepare =>
    split at h
    · cases h
    · next requiredBytes hcharge =>
      split at h
      · cases h
      · next permit admission hacquire =>
        obtain ⟨hid, rfl⟩ := Prod.mk.inj h
        refine ⟨(Except.ok.inj hid).symm, ?_⟩
        have hsize : sizeOr (checkedAdd charge size) "RPC receiver charge overflow" =
            .ok requiredBytes := sizeOr_eq_ok.mpr hcharge
        have hcharged : (Request.into request (box receiver)).charge
            { cfg with sizeOfReceiver := size } = .ok requiredBytes := by
          simp only [Request.charge, hprepare]
          exact hsize
        have hprepared : (Request.into request (box receiver)).prepare
            { cfg with sizeOfReceiver := size } =
              .ok (request.header.xid, header :: request.payload, .segmented ⟨box receiver, 0⟩) :=
                by
          simp only [Request.prepare, hprepare]
          exact except_bind_eq_ok.mpr
            ⟨(header, charge), rfl, except_bind_eq_ok.mpr ⟨requiredBytes, hsize, rfl⟩⟩
        exact admitCall_of_acquired hcharged hprepared hacquire hopen

/-- A classic call that is refused leaves everything. -/
theorem tryCall_refused {request : RpcMessage} {refusal : CallRefusal RpcMessage Unit}
    (h : s.tryCall cfg request options = (.error refusal, s')) :
    refusal.request = request ∧ s' = s := by
  unfold tryCall at h
  split at h
  · obtain ⟨hrefusal, rfl⟩ := Prod.mk.inj h
    obtain rfl := Except.error.inj hrefusal
    exact ⟨rfl, rfl⟩
  · split at h
    · next reason admission hacquire =>
      obtain ⟨hrefusal, rfl⟩ := Prod.mk.inj h
      obtain rfl := Except.error.inj hrefusal
      obtain rfl := AdmissionState.eq_of_tryAcquire_error hacquire
      exact ⟨rfl, rfl⟩
    · cases h

/-- So does a segmented call. -/
theorem tryCallInto_refused {P : Type} {box : P → R} {size : ℕ} {request : SegmentedRequest}
    {receiver : P} {refusal : CallRefusal SegmentedRequest P}
    (h : s.tryCallInto cfg box size request receiver options = (.error refusal, s')) :
    refusal.request = request ∧ refusal.receiver = receiver ∧ s' = s := by
  unfold tryCallInto at h
  split at h
  · obtain ⟨hrefusal, rfl⟩ := Prod.mk.inj h
    obtain rfl := Except.error.inj hrefusal
    exact ⟨rfl, rfl, rfl⟩
  · split at h
    · obtain ⟨hrefusal, rfl⟩ := Prod.mk.inj h
      obtain rfl := Except.error.inj hrefusal
      exact ⟨rfl, rfl, rfl⟩
    · split at h
      · next reason admission hacquire =>
        obtain ⟨hrefusal, rfl⟩ := Prod.mk.inj h
        obtain rfl := Except.error.inj hrefusal
        obtain rfl := AdmissionState.eq_of_tryAcquire_error hacquire
        exact ⟨rfl, rfl, rfl⟩
      · cases h

end Leased

/-! ## Typed calls -/

/-- Recover the destination of a direct receive. -/
def XdrReplyReceiver.intoBuffer {M : Type} (r : XdrReplyReceiver M) : Bytes := r.buffer

/-- Recover the destination of a receive and decode. -/
def XdrDecodeReceiver.intoBuffer (r : XdrDecodeReceiver) : Bytes := r.buffer

/-- A client of a connection, with the connection's counter of transaction ids. -/
structure AsyncClient (R : Type) where
  config : ClientConfig
  transport : Leased R
  nextXid : UInt32

namespace AsyncClient

/-- The request of a typed call, with a fresh transaction id. -/
def segmentedRequest (c : AsyncClient R) (program : ProgramVersion) (procedure : Procedure)
    (payload : List Bytes) (options : TypedCallOptions) :
    Except RuntimeError SegmentedRequest × AsyncClient R :=
  match allocateXid c.nextXid with
  | (.error error, nextXid) => (.error error, { c with nextXid := nextXid })
  | (.ok xid, nextXid) =>
    let header := buildRequestMessageWithOptions c.config xid (.new program procedure []) options
    (.ok ⟨header, payload⟩, { c with nextXid := nextXid })

/-- Encode the argument of a typed call and build its request. -/
def encodeRequest {A : Type} [XdrEncodeSegments A] (c : AsyncClient R) (program : ProgramVersion)
    (procedure : Procedure) (argument : A) (options : TypedCallOptions) :
    Except RuntimeError SegmentedRequest × AsyncClient R :=
  match XdrEncodeSegments.toXdrSegments argument with
  | .error error => (.error (.encode error), c)
  | .ok payload => c.segmentedRequest program procedure payload options

/-- Admit a typed call.  The two entry points differ in the receiver they build around the
destination, and in how they recover the destination from it. -/
def tryCallXdr {A P : Type} [XdrEncodeSegments A] (cfg : Config) (c : AsyncClient R) (box : P → R)
    (size : ℕ) (wrap : Bytes → P) (intoBuffer : P → Bytes) (program : ProgramVersion)
    (procedure : Procedure) (argument : A) (buffer : Bytes) (options : TypedCallOptions) :
    Except (CallRefusal A Bytes) ℕ × AsyncClient R :=
  let receiver := wrap buffer
  match c.encodeRequest program procedure argument options with
  | (.error error, c) => (.error ⟨.invalidRequest error, argument, intoBuffer receiver, 0⟩, c)
  | (.ok request, c) =>
    match c.transport.tryCallInto cfg box size request receiver options.wait with
    | (.error refusal, transport) =>
      (.error ⟨refusal.reason, argument, intoBuffer refusal.receiver, refusal.requiredBytes⟩,
        { c with transport := transport })
    | (.ok id, transport) => (.ok id, { c with transport := transport })

/-- Admit a call that receives an opaque value directly. -/
def tryCallXdrInto {A : Type} (M : Type) [XdrEncodeSegments A] [XdrReplyMetadata M] (cfg : Config)
    (c : AsyncClient R) (box : XdrReplyReceiver M → R) (size : ℕ) (program : ProgramVersion)
    (procedure : Procedure) (argument : A) (buffer : Bytes) (options : TypedCallOptions) :
    Except (CallRefusal A Bytes) ℕ × AsyncClient R :=
  c.tryCallXdr cfg box size XdrReplyReceiver.new XdrReplyReceiver.intoBuffer program procedure
    argument buffer options

/-- Admit a call that receives and decodes an ordinary value. -/
def tryCallXdrSegmented {A : Type} [XdrEncodeSegments A] (cfg : Config) (c : AsyncClient R)
    (box : XdrDecodeReceiver → R) (size : ℕ) (program : ProgramVersion) (procedure : Procedure)
    (argument : A) (buffer : Bytes) (options : TypedCallOptions) :
    Except (CallRefusal A Bytes) ℕ × AsyncClient R :=
  c.tryCallXdr cfg box size XdrDecodeReceiver.new XdrDecodeReceiver.intoBuffer program procedure
    argument buffer options

variable {cfg : Config} {c c' : AsyncClient R} {program : ProgramVersion} {procedure : Procedure}
  {options : TypedCallOptions}

/-- The counter of transaction ids is where it was, or one id further. -/
def Drew (nextXid nextXid' : UInt32) : Prop :=
  nextXid' = nextXid ∨ nextXid.toNat + 1 = nextXid'.toNat

/-- Drawing an id moves the counter by at most one, and not past the last id. -/
theorem drew_allocateXid (counter : UInt32) : Drew counter (allocateXid counter).2 := by
  unfold allocateXid
  split_ifs with hlast
  · exact .inl rfl
  · refine .inr ?_
    have hne : counter.toNat ≠ 2 ^ 32 - 1 := fun h => hlast (UInt32.toNat_inj.mp h)
    have hlt := counter.toNat_lt
    rw [UInt32.toNat_add, UInt32.toNat_one]
    omega

/-- Building a request draws an id at most. -/
theorem encodeRequest_eq {A : Type} [XdrEncodeSegments A] (c : AsyncClient R)
    (program : ProgramVersion) (procedure : Procedure) (argument : A) (options : TypedCallOptions) :
    ∃ nextXid, (c.encodeRequest program procedure argument options).2 =
      { c with nextXid := nextXid } ∧ Drew c.nextXid nextXid := by
  unfold encodeRequest
  split
  · exact ⟨c.nextXid, rfl, .inl rfl⟩
  · have hdrew := drew_allocateXid c.nextXid
    unfold segmentedRequest
    split
    · next error nextXid hallocate =>
      rw [hallocate] at hdrew
      exact ⟨nextXid, rfl, hdrew⟩
    · next xid nextXid hallocate =>
      rw [hallocate] at hdrew
      exact ⟨nextXid, rfl, hdrew⟩

/-- A typed call that is refused leaves the connection, and gives back the argument and the
destination; it has drawn an id at most. -/
theorem tryCallXdr_refused {A P : Type} [XdrEncodeSegments A] {box : P → R} {size : ℕ}
    {wrap : Bytes → P} {intoBuffer : P → Bytes}
    (hinto : ∀ buffer, intoBuffer (wrap buffer) = buffer) {argument : A} {buffer : Bytes}
    {refusal : CallRefusal A Bytes}
    (h : c.tryCallXdr cfg box size wrap intoBuffer program procedure argument buffer options =
      (.error refusal, c')) :
    refusal.request = argument ∧ refusal.receiver = buffer ∧
      ∃ nextXid, c' = { c with nextXid := nextXid } ∧ Drew c.nextXid nextXid := by
  obtain ⟨nextXid, hnext, hdrew⟩ := c.encodeRequest_eq program procedure argument options
  simp only [tryCallXdr] at h
  split at h
  · next error c₁ hencode =>
    rw [hencode] at hnext
    obtain ⟨hrefusal, rfl⟩ := Prod.mk.inj h
    obtain rfl := Except.error.inj hrefusal
    exact ⟨rfl, hinto buffer, nextXid, hnext, hdrew⟩
  · next request c₁ hencode =>
    rw [hencode] at hnext
    simp only at hnext
    subst hnext
    split at h
    · next refusal₁ transport hcall =>
      obtain ⟨hrefusal, rfl⟩ := Prod.mk.inj h
      obtain rfl := Except.error.inj hrefusal
      obtain ⟨-, hreceiver, htransport⟩ := Leased.tryCallInto_refused hcall
      refine ⟨rfl, ?_, nextXid, ?_, hdrew⟩
      · rw [hreceiver]
        exact hinto buffer
      · rw [htransport]
    · cases h

end AsyncClient

/-! ## Refusals are atomic -/

/-- Nothing of a connection has changed, and nothing comes of it later. -/
structure Leased.Untouched [ReplyReceiver R] (cfg : Config) (s s' : Leased R) : Prop where
  pending : s'.conn.pending = s.conn.pending
  admission : s'.admission = s.admission
  closed : s'.conn.closed = s.conn.closed
  writes : s'.conn.writes = s.conn.writes
  later : ∀ ok t, Runs (step cfg) ok s' t ↔ Runs (step cfg) ok s t

/-- The same connection is untouched. -/
theorem Leased.Untouched.of_eq [ReplyReceiver R] {cfg : Config} {s s' : Leased R} (h : s' = s) :
    Untouched cfg s s' := by
  subst h
  exact ⟨rfl, rfl, rfl, rfl, fun _ _ => Iff.rfl⟩

/-- A refused call gives back what it was called with and leaves the connection untouched, whichever
entry point refused it; a typed call has drawn a transaction id at most. -/
theorem refusal_atomic [ReplyReceiver R] (cfg : Config) :
    (∀ (s s' : Leased R) (request : RpcMessage) (options : CallOptions)
      (refusal : CallRefusal RpcMessage Unit),
      s.tryCall cfg request options = (.error refusal, s') →
        refusal.request = request ∧ s.Untouched cfg s') ∧
    (∀ (P : Type) (box : P → R) (size : ℕ) (s s' : Leased R) (request : SegmentedRequest)
      (receiver : P) (options : CallOptions) (refusal : CallRefusal SegmentedRequest P),
      s.tryCallInto cfg box size request receiver options = (.error refusal, s') →
        refusal.request = request ∧ refusal.receiver = receiver ∧ s.Untouched cfg s') ∧
    (∀ (A M : Type) [XdrEncodeSegments A] [XdrReplyMetadata M] (box : XdrReplyReceiver M → R)
      (size : ℕ) (c c' : AsyncClient R) (program : ProgramVersion) (procedure : Procedure)
      (argument : A) (buffer : Bytes) (options : TypedCallOptions) (refusal : CallRefusal A Bytes),
      c.tryCallXdrInto M cfg box size program procedure argument buffer options =
          (.error refusal, c') →
        refusal.request = argument ∧ refusal.receiver = buffer ∧ c'.config = c.config ∧
          c.transport.Untouched cfg c'.transport ∧ AsyncClient.Drew c.nextXid c'.nextXid) ∧
    ∀ (A : Type) [XdrEncodeSegments A] (box : XdrDecodeReceiver → R) (size : ℕ)
      (c c' : AsyncClient R)
      (program : ProgramVersion) (procedure : Procedure) (argument : A) (buffer : Bytes)
      (options : TypedCallOptions) (refusal : CallRefusal A Bytes),
      c.tryCallXdrSegmented cfg box size program procedure argument buffer options =
          (.error refusal, c') →
        refusal.request = argument ∧ refusal.receiver = buffer ∧ c'.config = c.config ∧
          c.transport.Untouched cfg c'.transport ∧ AsyncClient.Drew c.nextXid c'.nextXid := by
  refine ⟨?_, ?_, ?_, ?_⟩
  · intro s s' request options refusal h
    obtain ⟨hrequest, hstate⟩ := Leased.tryCall_refused h
    exact ⟨hrequest, .of_eq hstate⟩
  · intro P box size s s' request receiver options refusal h
    obtain ⟨hrequest, hreceiver, hstate⟩ := Leased.tryCallInto_refused h
    exact ⟨hrequest, hreceiver, .of_eq hstate⟩
  · intro A M _ _ box size c c' program procedure argument buffer options refusal h
    obtain ⟨hrequest, hreceiver, nextXid, rfl, hdrew⟩ :=
      AsyncClient.tryCallXdr_refused (fun _ => rfl) h
    exact ⟨hrequest, hreceiver, rfl, .of_eq rfl, hdrew⟩
  · intro A _ box size c c' program procedure argument buffer options refusal h
    obtain ⟨hrequest, hreceiver, nextXid, rfl, hdrew⟩ :=
      AsyncClient.tryCallXdr_refused (fun _ => rfl) h
    exact ⟨hrequest, hreceiver, rfl, .of_eq rfl, hdrew⟩

/-- Counters of which every call is taken. -/
def AdmissionState.full : AdmissionState where
  limits := { maxCalls := 1, maxBytes := 1000 }
  calls := 1
  bytes := 100
  closed := false

/-- A connection at capacity refuses a classic call and a typed call; the typed call has drawn an
id. -/
theorem refusal_atomic_full :
    (∃ (s s' : Leased Buffers) (refusal : CallRefusal RpcMessage Unit),
      s.tryCall .plain (.nullCall 7) ⟨false, .none⟩ = (.error refusal, s') ∧
      refusal.reason = .atCapacity ∧ s.Untouched .plain s') ∧
    ∃ (c c' : AsyncClient (XdrReplyReceiver LengthMetadata)) (refusal : CallRefusal Unit Bytes),
      c.tryCallXdrInto LengthMetadata .plain id 0 ⟨3, 1⟩ 1 () [9, 9] ⟨⟨false, .none⟩, none, none⟩ =
        (.error refusal, c') ∧
      refusal.reason = .atCapacity ∧ refusal.receiver = [9, 9] ∧ c'.nextXid = 2 ∧
      c.transport.Untouched .plain c'.transport := by
  have hclassic : (Leased.initial .plain .full : Leased Buffers).tryCall .plain (.nullCall 7)
      ⟨false, .none⟩ = (.error ⟨.atCapacity, .nullCall 7, (), 44⟩, .initial .plain .full) := rfl
  have htyped : (⟨⟨.none, .none⟩, .initial .plain .full, 1⟩ :
      AsyncClient (XdrReplyReceiver LengthMetadata)).tryCallXdrInto LengthMetadata
        .plain id 0 ⟨3, 1⟩ 1 ()
        [9, 9] ⟨⟨false, .none⟩, none, none⟩ = (.error ⟨.atCapacity, (), [9, 9], 44⟩,
          ⟨⟨.none, .none⟩, .initial .plain .full, 2⟩) := rfl
  obtain ⟨-, huntouched⟩ := (refusal_atomic .plain).1 _ _ _ _ _ hclassic
  obtain ⟨-, -, -, huntouched', -⟩ :=
    (refusal_atomic .plain).2.2.1 _ _ _ _ _ _ _ _ _ _ _ _ htyped
  exact ⟨⟨_, _, _, hclassic, rfl, huntouched⟩, _, _, _, htyped, rfl, rfl, rfl, huntouched'⟩

end OncRpc
