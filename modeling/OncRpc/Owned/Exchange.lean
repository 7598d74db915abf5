import OncRpc.Foundation.Paired
import OncRpc.Foundation.PrefixCode
import OncRpc.Owned.Correlation
import OncRpc.Owned.FrameIntegrity
import OncRpc.Server.Chunking
import OncRpc.Server.Exchange

/-!
# Calls over a connection

A client and a server at the two ends of a connection.  Each direction is a stream of bytes: an end
reads what the other end has written so far, in order and in pieces of any size, and at any time it
may see the end of the stream or an error instead.

`TcpSystem.step` is a step of one end, and `TcpSystem.carries` says of a step that the streams allow
it.  Records are a prefix code, so the records that an end has read are the first ones that the
other end has written.  `tcp_handles_once` says which messages the server takes from the stream, and
`tcp_exchange` what a call gets back.
-/

namespace OncRpc

open Foundation

variable {R Ω : Type}

/-- Records are told apart in a stream. -/
theorem Record.prefixCode : PrefixCode Record.bytes where
  ne_nil r hnil := by
    have hpos := r.bytes_pos
    rw [hnil] at hpos
    exact absurd hpos (lt_irrefl 0)
  unique h := (Record.bytes_append_inj h).1

/-! ## The two ends -/

/-- The message that a request sends. -/
def Request.message : Request R → RpcMessage
  | .classic message => message
  | .into request _ => request.header.withPayload request.payload.flatten

/-- The messages of the calls that an action admits. -/
def Action.requests : Action R → List RpcMessage
  | .admitCall request _ => [request.message]
  | _ => []

/-- The bytes that an action takes from the stream. -/
def Action.taken : Action R → Bytes
  | .read result => Conn.taken result
  | _ => []

/-- A client, a server, and the messages of the client's calls. -/
structure TcpSystem (R : Type) where
  client : Conn R
  server : ServerConn
  requests : List RpcMessage

/-- A step of one of the ends. -/
inductive TcpSystemAction (R Ω : Type) where
  | client (action : Action R)
  | server (action : ServerAction Ω)

namespace TcpSystem

/-- A connection that has just been set up. -/
def initial (cfg : Config) : TcpSystem R := ⟨.initial cfg, .initial [], []⟩

/-- One step of an end. -/
def step [ReplyReceiver R] (cfg : Config) (service : Service Ω) (s : TcpSystem R) :
    TcpSystemAction R Ω → Option (TcpSystem R)
  | .client action =>
    (Conn.step cfg s.client action).map fun client =>
      { s with client := client, requests := s.requests ++ action.requests }
  | .server action =>
    (ServerConn.step service s.server action).map fun conn => { s with server := conn }

/-- The streams allow a step: what is read was written before, and the server can write. -/
def carries (s : TcpSystem R) : TcpSystemAction R Ω → Bool
  | .client action => (s.client.consumed ++ action.taken).isPrefixOf s.server.output
  | .server action =>
    (s.server.input ++ action.chunk.getD []).isPrefixOf s.client.accepted && !action.fails

/-- The streams allow the step, and it is no misread. -/
def Carries [ReplyReceiver R] (cfg : Config) (s : TcpSystem R) (action : TcpSystemAction R Ω) :
    Prop :=
  s.carries action = true ∧ ∀ act, action = .client act → ¬ Conn.Misreads cfg s.client act

end TcpSystem

/-! ## The client -/

/-- An admitted request has the transaction id of its message and writes its encoding. -/
theorem Request.of_prepare {cfg : Config} {request : Request R} {xid : Xid} {segments : List Bytes}
    {sender : ResponseSender R} (h : request.prepare cfg = .ok (xid, segments, sender)) :
    xid = request.message.xid ∧ request.message.encode = .ok segments.flatten := by
  cases request with
  | classic message =>
    simp only [prepare, RpcMessage.segments, except_bind_eq_ok, mapError_eq_ok, pure, Except.pure,
      Except.ok.injEq, Prod.mk.injEq] at h
    obtain ⟨_, ⟨-, -, encoded, hencode, rfl⟩, rfl, rfl, -⟩ := h
    exact ⟨rfl, by rw [Request.message, hencode, List.flatten_singleton]⟩
  | into request receiver =>
    simp only [prepare, except_bind_eq_ok, pure, Except.pure, Except.ok.injEq, Prod.mk.injEq] at h
    obtain ⟨⟨header, charge⟩, hprepare, -, -, rfl, rfl, -⟩ := h
    obtain ⟨⟨call, hbody, hempty⟩, hencode, -⟩ := prepare_eq_ok_iff.mp hprepare
    refine ⟨?_, ?_⟩
    · rw [Request.message, RpcMessage.withPayload, hbody]
    · rw [Request.message, encode_withPayload hbody hempty, hencode, List.flatten_cons]
      rfl

namespace Conn

variable [ReplyReceiver R] {cfg : Config} {s s' : Conn R} {action : Action R}

/-- A step takes from the stream what it reads, and nothing else. -/
theorem consumed_of_step (h : step cfg s action = some s') :
    s'.consumed = s.consumed ++ action.taken := by
  cases moves_of_step h with
  | reader hbusy h =>
    cases h with
    | read => rfl
    | unwind _ hcause =>
      rw [dropSender_eq]
      rcases hcause with ⟨rfl, -⟩ | ⟨rfl, -⟩ <;> simp [Action.taken]
    | stopped _ _ hcause =>
      rcases hcause with ⟨rfl, -⟩ | ⟨rfl, -⟩ <;> simp [Action.taken]
    | cleanup =>
      rw [cleanup_eq]
      simp [Action.taken]
    | _ => simp [Action.taken]
  | _ => simp [Action.taken]

/-- What was taken from the stream stays taken. -/
theorem consumed_of_runs {ok : Conn R → Action R → Prop} (h : Runs (step cfg) ok s s') :
    s.consumed <+: s'.consumed := by
  refine h.invariant (fun t => s.consumed <+: t.consumed) (List.prefix_refl _) ?_
  rintro t act u ht - hstep
  rw [consumed_of_step hstep]
  exact ht.trans (List.prefix_append _ _)

/-- What the stream accepted stays accepted. -/
theorem accepted_of_step (hreg : RegistryInv s) (h : step cfg s action = some s') :
    s.accepted <+: s'.accepted := by
  rcases (moves_of_step h).writes hreg.idle with hsame | ⟨id, chunk, hwrites, -⟩
  · rw [accepted, accepted, hsame]
  · rw [accepted, accepted, hwrites, List.map_append, List.flatten_append]
    exact List.prefix_append _ _

/-- A call keeps what it was admitted with over every step that does not create it. -/
theorem later_of_ne (h : step cfg s action = some s') {id : ℕ} (hne : id ≠ s.created) :
    (s.calls id).Later (s'.calls id) := by
  have hmove := moves_of_step h
  cases hmove with
  | admitCall hreleased hprepare =>
    simp only [Function.update_of_ne hne]
    exact .refl _
  | call hbusy hcall => exact later_update hcall.later id
  | reader hbusy hreader => exact hreader.later id
  | failNext hjob hentry => exact later_update (later_failCall _ _ _) id
  | close hreleased =>
    simp only [fail_calls]
    exact .refl _
  | failDone | poll | closeAbort | closeTake | release => exact .refl _

/-- A step creates the call it admits, if it admits one. -/
theorem created_of_step (h : step cfg s action = some s') :
    (∃ request options, action = .admitCall request options ∧ s'.created = s.created + 1 ∧
      (s'.calls s.created).xid = request.message.xid ∧
      request.message.encode = .ok (s'.calls s.created).segments.flatten) ∨
    (action.requests = [] ∧ s'.created = s.created) := by
  cases moves_of_step h with
  | @admitCall request options xid segments sender hreleased hprepare =>
    refine .inl ⟨request, options, rfl, rfl, ?_⟩
    simp only [Function.update_self]
    exact Request.of_prepare hprepare
  | reader hbusy h =>
    right
    cases h with
    | unwind _ hcause =>
      rw [dropSender_eq]
      rcases hcause with ⟨rfl, -⟩ | ⟨rfl, -⟩ <;> exact ⟨rfl, rfl⟩
    | stopped _ _ hcause =>
      rcases hcause with ⟨rfl, -⟩ | ⟨rfl, -⟩ <;> exact ⟨rfl, rfl⟩
    | cleanup =>
      rw [cleanup_eq]
      exact ⟨rfl, rfl⟩
    | fail | exit => exact ⟨rfl, fail_created _ _ _⟩
    | _ => exact ⟨rfl, rfl⟩
  | call => exact .inr ⟨rfl, apply_created _ _ _⟩
  | close => exact .inr ⟨rfl, fail_created _ _ _⟩
  | failNext | failDone | poll | closeAbort | closeTake | release => exact .inr ⟨rfl, rfl⟩

omit [ReplyReceiver R] in
/-- A call that exists was created. -/
theorem lt_created (hreg : RegistryInv s) {id : ℕ} (hid : (s.calls id).phase ≠ .absent) :
    id < s.created := by
  by_contra hle
  rw [hreg.fresh id (Nat.le_of_not_lt hle)] at hid
  exact hid rfl

/-- What the stream accepted is a start of the frames of distinct calls. -/
theorem exists_frames (h : Reachable cfg s) :
    ∃ ids : List ℕ, ids.Nodup ∧ (∀ id ∈ ids, id < s.created ∧ FrameFits (s.calls id).segments) ∧
      s.accepted <+: ids.flatMap fun id => frame (s.calls id).segments := by
  have hreg := RegistryInv.of_reachable h
  have hline := LineInv.of_reachable h
  obtain ⟨done, tail, hframes, htail⟩ := hline.wire
  have hdone : ∀ id ∈ done, id < s.created ∧ FrameFits (s.calls id).segments := fun id hid =>
    ⟨lt_created hreg (ne_absent_of_isPast (hframes.past id hid)), hframes.fits id hid⟩
  by_cases hnil : tail = []
  · refine ⟨done, hframes.nodup, hdone, ?_⟩
    rw [hframes.bytes, hnil, List.append_nil, List.flatMap_def]
  -- The rest is a part of the frame of one more call.
  obtain ⟨id, hid, hexists, hpart⟩ : ∃ id, id ∉ done ∧ (s.calls id).phase ≠ .absent ∧
      FramePart (s.calls id).segments tail := by
    cases htail with
    | free _ htail => exact absurd htail hnil
    | held id hlock hprogress =>
      have hholds := (hline.holder id).mpr hlock
      exact ⟨id, fun hid => ne_of_isPast hholds (hframes.past id hid) rfl,
        ne_absent_of_holdsLock hholds, hprogress.part⟩
    | abandoned id hid hpast hpart => exact ⟨id, hid, ne_absent_of_isPast hpast, hpart⟩
  refine ⟨done ++ [id], ?_, fun other hother => ?_, ?_⟩
  · exact List.nodup_append.mpr ⟨hframes.nodup, List.nodup_singleton id,
      fun a ha b hb heq => hid (List.mem_singleton.mp hb ▸ heq ▸ ha)⟩
  · rcases List.mem_append.mp hother with hold | hnew
    · exact hdone other hold
    · rw [List.mem_singleton.mp hnew]
      exact ⟨lt_created hreg hexists, hpart.2 hnil⟩
  · rw [hframes.bytes, List.flatMap_append, List.flatMap_def, List.flatMap_singleton]
    exact (List.prefix_append_right_inj _).mpr hpart.1

/-- A call that finished with a message was answered by a whole record of the stream. -/
theorem exists_record (h : Runs (step cfg) (fun t a => ¬ Misreads cfg t a) (initial cfg) s) {id : ℕ}
    {reply : Reply R} {message : RpcMessage} (hphase : (s.calls id).phase = .finished reply)
    (hok : reply.result = .ok message) :
    ∃ (records : List Record) (r : Record) (rest : Bytes) (m : RpcMessage),
      s.consumed = (records ++ [r]).flatMap Record.bytes ++ rest ∧
      RpcMessage.decode r.data = .ok m ∧ m.xid = (s.calls id).xid ∧
      message = (if (s.calls id).sender.isBuffered then m else m.header) := by
  obtain ⟨actions, htrace⟩ := h.exists_trace
  have hfuture := FutureInv.of_trace (htrace.mono fun _ _ _ => trivial) id
  obtain ⟨hkind, -, decision, -, houtcome⟩ := hfuture.taken reply (by rw [hphase]; rfl)
  have hcomputes : Happened (step cfg) (initial cfg) actions (Computes id reply) := by
    cases houtcome with
    | stopped _ hresult | ended _ _ hresult =>
      rw [hok] at hresult
      cases hresult
    | computed hcomputes => exact hcomputes
  obtain ⟨before, action, after, t, u, -, hbefore, hclean, hstep, hevent, hafter⟩ :=
    hcomputes.on_trace htrace
  have hreg := RegistryInv.of_reachable (hbefore.runs.mono fun _ _ _ => trivial)
  obtain ⟨records, taken, -, hconsumed, hat, -⟩ := Traced.of_trace hbefore
  obtain ⟨r, xid, chunks, m, -, hdata, h4, hkey, hdecode, -, hmessage, hcompletes⟩ :=
    completes_of_computes hevent hok hconsumed hat
  obtain ⟨-, hwhole, receive, hreader, -⟩ := hcompletes
  -- What the reader had taken then it has taken now, and the call is still the same.
  have hrest : Runs (step cfg) (fun _ _ => True) t s :=
    ((Runs.refl t).tail trivial hstep).trans (hafter.runs.mono fun _ _ _ => trivial)
  obtain ⟨rest, hlater⟩ := consumed_of_runs hrest
  obtain ⟨hxid, -⟩ := runs_keep hreg (hreg.receiving id _ receive hreader).2.1 hrest
  refine ⟨records, r, rest, m, ?_, hdecode, ?_, ?_⟩
  · rw [← hlater, hwhole, List.flatMap_append, List.flatMap_singleton]
  · rw [RpcMessage.xid_of_decode h4 (hdata ▸ hdecode), hkey, hxid]
  · rwa [← hkind]

end Conn

/-! ## The server -/

namespace ServerConn

variable {service : Service Ω} {s s' : ServerConn} {action : ServerAction Ω}

/-- What the stream accepted stays accepted. -/
theorem output_of_step (h : s.step service action = some s') : s.output <+: s'.output := by
  rcases step_shape h with ⟨-, hsame, -⟩ | ⟨-, -, id, worker, act, phase, effect, -, -, -, rfl⟩
  · rw [hsame]
  · cases effect with
    | accept chunk => exact List.prefix_append _ _
    | none | lock | unlock => exact List.prefix_refl _

/-- The record is the reply of the server to a message that was decoded. -/
def Answered (server : Server Ω) (peerAddr : SocketAddr) (s : ServerConn) (r : Record) : Prop :=
  ∃ message ∈ s.messages, ∃ world reply,
    server.handleMessageWithPeerAddr world message (some peerAddr) = .ok reply ∧
    reply.encode = .ok r.data

theorem RepliesTo.answered {server : Server Ω} {peerAddr : SocketAddr} {id : ℕ} {frame : Bytes}
    (h : s.RepliesTo server peerAddr id frame) :
    ∃ r : Record, frame = r.bytes ∧ s.Answered server peerAddr r := by
  obtain ⟨message, call, world, reply, r, hmessage, -, hreply, -, hencode, hframe⟩ := h
  exact ⟨r, hframe, message, List.mem_of_getElem? hmessage, world, reply, hreply, hencode⟩

/-- What the stream accepted is a start of records that are answers. -/
theorem exists_answers {server : Server Ω} (hbounded : server.Bounded) {peerAddr : SocketAddr}
    (hrun : Runs (step (.tcp server peerAddr)) Writes (.initial []) s) :
    ∃ answers : List Record, s.output <+: answers.flatMap Record.bytes ∧
      ∀ r ∈ answers, s.Answered server peerAddr r := by
  obtain ⟨order, tail, -, houtput, hreplies, htail, -⟩ :=
    (ServerInv.of_writes hbounded hrun).replies hbounded
  obtain ⟨answers, hanswers⟩ := exists_forall₂ fun id hid => (hreplies id hid).answered
  have hall : ∀ r ∈ answers, s.Answered server peerAddr r := by
    intro r hr
    obtain ⟨id, -, -, hanswered⟩ := exists_of_mem_left hanswers.flip hr
    exact hanswered
  have hbytes : (order.map s.frameAt).flatten = answers.flatMap Record.bytes :=
    flatMap_eq_of_forall₂ (hanswers.imp fun _ _ h => h.1)
  rcases htail with rfl | ⟨id, -, left, hlast⟩
  · refine ⟨answers, ?_, hall⟩
    rw [houtput, hbytes, List.append_nil]
  · obtain ⟨last, hframe, hanswered⟩ := hlast.answered
    refine ⟨answers ++ [last], ?_, fun r hr => ?_⟩
    · rw [houtput, hbytes, List.flatMap_append, List.flatMap_singleton, ← hframe,
        ← List.append_assoc]
      exact List.prefix_append _ _
    · rcases List.mem_append.mp hr with hold | hnew
      · exact hall r hold
      · exact List.mem_singleton.mp hnew ▸ hanswered

end ServerConn

/-! ## Both ends -/

namespace TcpSystem

variable [ReplyReceiver R] {cfg : Config} {server : Server Ω} {peerAddr : SocketAddr}
  {s : TcpSystem R}

/-- Each end has made a run of its own, every call of the client sends the encoding of its message,
and what an end has read is a start of what the other end has written. -/
structure Joined (cfg : Config) (server : Server Ω) (peerAddr : SocketAddr) (s : TcpSystem R) :
    Prop where
  clientRun : Runs (Conn.step cfg) (fun t a => ¬ Conn.Misreads cfg t a) (.initial cfg) s.client
  serverRun : Runs (ServerConn.step (.tcp server peerAddr)) ServerConn.Writes (.initial []) s.server
  length : s.requests.length = s.client.created
  requests : ∀ id request, s.requests[id]? = some request →
    (s.client.calls id).xid = request.xid ∧
      request.encode = .ok (s.client.calls id).segments.flatten
  upstream : s.server.input <+: s.client.accepted
  downstream : s.client.consumed <+: s.server.output

theorem Joined.initial : Joined cfg server peerAddr (.initial cfg : TcpSystem R) where
  clientRun := .refl _
  serverRun := .refl _
  length := rfl
  requests id request h := by
    rw [show (TcpSystem.initial cfg : TcpSystem R).requests = [] from rfl, List.getElem?_nil] at h
    cases h
  upstream := List.prefix_refl _
  downstream := List.prefix_refl _

/-- A step of the client. -/
theorem Joined.clientStep (h : Joined cfg server peerAddr s) {action : Action R} {client : Conn R}
    (hclean : ¬ Conn.Misreads cfg s.client action)
    (hcarries : s.client.consumed ++ action.taken <+: s.server.output)
    (hstep : Conn.step cfg s.client action = some client) :
    Joined cfg server peerAddr
      { s with client := client, requests := s.requests ++ action.requests } := by
  have hreg := Conn.RegistryInv.of_reachable (h.clientRun.mono fun _ _ _ => trivial)
  have hcreated := Conn.created_of_step hstep
  refine ⟨h.clientRun.tail hclean hstep, h.serverRun, ?_, fun id request hrequest => ?_,
    h.upstream.trans (Conn.accepted_of_step hreg hstep), ?_⟩
  · rcases hcreated with ⟨request, options, rfl, hcreated, -⟩ | ⟨hnone, hcreated⟩
    · rw [hcreated, List.length_append, h.length]
      rfl
    · rw [hcreated, hnone, List.append_nil, h.length]
  · by_cases hlt : id < s.requests.length
    · rw [List.getElem?_append_left hlt] at hrequest
      obtain ⟨hxid, hencode⟩ := h.requests id request hrequest
      have hlater := Conn.later_of_ne hstep (h.length ▸ hlt).ne
      exact ⟨hlater.xid.trans hxid, by rw [hlater.segments, hencode]⟩
    · -- The only other message is that of the call the step admits.
      rw [List.getElem?_append_right (Nat.le_of_not_lt hlt)] at hrequest
      rcases hcreated with ⟨new, options, rfl, -, hxid, hencode⟩ | ⟨hnone, -⟩
      · obtain ⟨hzero, rfl⟩ : id - s.requests.length = 0 ∧ new.message = request := by
          simpa [Action.requests, List.getElem?_singleton] using hrequest
        have hid : id = s.client.created := by
          rw [← h.length]
          omega
        rw [hid]
        exact ⟨hxid, hencode⟩
      · rw [hnone, List.getElem?_nil] at hrequest
        cases hrequest
  · rw [Conn.consumed_of_step hstep]
    exact hcarries

/-- A step of the server. -/
theorem Joined.serverStep (h : Joined cfg server peerAddr s) {action : ServerAction Ω}
    {conn : ServerConn} (hcarries : s.server.input ++ action.chunk.getD [] <+: s.client.accepted)
    (hwrites : action.fails = false)
    (hstep : ServerConn.step (.tcp server peerAddr) s.server action = some conn) :
    Joined cfg server peerAddr { s with server := conn } := by
  refine ⟨h.clientRun, h.serverRun.tail hwrites hstep, h.length, h.requests, ?_,
    h.downstream.trans (ServerConn.output_of_step hstep)⟩
  rw [ServerConn.input_of_step hstep]
  exact hcarries

theorem Joined.of_runs (h : Runs (step cfg (.tcp server peerAddr)) (Carries cfg) (.initial cfg) s) :
    Joined cfg server peerAddr s := by
  refine h.invariant (Joined cfg server peerAddr) .initial ?_
  rintro u action v hu ⟨hcarries, hclean⟩ hstep
  cases action with
  | client action =>
    obtain ⟨client, hclient, rfl⟩ := Option.map_eq_some_iff.mp hstep
    exact hu.clientStep (hclean action rfl) (List.isPrefixOf_iff_prefix.mp hcarries) hclient
  | server action =>
    obtain ⟨conn, hconn, rfl⟩ := Option.map_eq_some_iff.mp hstep
    obtain ⟨hread, hwrites⟩ := Bool.and_eq_true_iff.mp hcarries
    exact hu.serverStep (List.isPrefixOf_iff_prefix.mp hread) (by simpa using hwrites) hconn

/-- The message is what the server reads from the request of the call. -/
def Handles (s : TcpSystem R) (id : ℕ) (message : RpcMessage) : Prop :=
  ∃ (request : RpcMessage) (bytes : Bytes), s.requests[id]? = some request ∧
    request.encode = .ok bytes ∧ RpcMessage.decode bytes = .ok message

/-- The messages of the server are those of distinct calls. -/
theorem Joined.handled (h : Joined cfg server peerAddr s) :
    ∃ ids : List ℕ, ids.Nodup ∧ List.Forall₂ s.Handles ids s.server.messages := by
  obtain ⟨ids, hnodup, hids, haccepted⟩ :=
    Conn.exists_frames (h.clientRun.mono fun _ _ _ => trivial)
  have hdecoded : s.server.Decoded (.tcp server peerAddr) [] :=
    h.serverRun.invariant (ServerConn.Decoded (.tcp server peerAddr) []) (.initial _ _)
      fun hu _ hstep => hu.step hstep
  obtain ⟨records, rest, hinput, hmessages, -⟩ := hdecoded.records
  -- Each frame is a record, so the records of the server are the first of them.
  obtain ⟨frames, hframes⟩ := exists_forall₂ fun id hid =>
    (⟨.single _ (hids id hid).2, (hids id hid).1, (Record.single_bytes _ _).symm,
      Record.single_data _ _⟩ : ∃ r : Record, id < s.client.created ∧
      frame (s.client.calls id).segments = r.bytes ∧ r.data = (s.client.calls id).segments.flatten)
  have hbytes := flatMap_eq_of_forall₂ (hframes.imp fun _ _ h => h.2.1)
  have hfirst : records <+: frames :=
    Record.prefixCode.isPrefix_of_seen hinput (h.upstream.trans (hbytes ▸ haccepted))
  obtain ⟨more, rfl⟩ := hfirst
  refine ⟨ids.take records.length, hnodup.sublist (List.take_sublist _ _), ?_⟩
  refine forall₂_comp (List.forall₂_take_append ids records more hframes) hmessages ?_
  rintro id r message ⟨hlt, -, hdata⟩ hmessage
  obtain ⟨request, hrequest⟩ : ∃ request, s.requests[id]? = some request :=
    ⟨_, List.getElem?_eq_getElem (h.length.symm ▸ hlt)⟩
  refine ⟨request, _, hrequest, (h.requests id request hrequest).2, ?_⟩
  rw [← hdata]
  exact hmessage

/-- What is read from a whole record that the client has taken was exchanged for a request. -/
theorem Joined.exchanges (h : Joined cfg server peerAddr s) (hbounded : server.Bounded)
    {records : List Record} {r : Record} {rest : Bytes} {m : RpcMessage}
    (htaken : s.client.consumed = (records ++ [r]).flatMap Record.bytes ++ rest)
    (hdecode : RpcMessage.decode r.data = .ok m) :
    ∃ (other : ℕ) (request : RpcMessage), s.requests[other]? = some request ∧
      server.Exchanges (some peerAddr) request m := by
  obtain ⟨answers, houtput, hanswers⟩ := ServerConn.exists_answers hbounded h.serverRun
  have hfirst := Record.prefixCode.isPrefix_of_seen htaken (h.downstream.trans houtput)
  have hmem : r ∈ answers := hfirst.subset (List.mem_append_right _ (List.mem_singleton_self r))
  obtain ⟨message, hmessage, world, reply, hreply, hencode⟩ := hanswers r hmem
  obtain ⟨ids, -, hhandled⟩ := h.handled
  obtain ⟨other, -, request, bytes, hrequest, hbytes, hread⟩ :=
    exists_of_mem_left hhandled.flip hmessage
  exact ⟨other, request, hrequest, bytes, message, world, reply, r.data, hbytes, hread, hreply,
    hencode, hdecode⟩

end TcpSystem

/-! ## Calls -/

section Calls

variable [ReplyReceiver R] {cfg : Config} {server : Server Ω} {peerAddr : SocketAddr}
  {s : TcpSystem R}

/-- However the calls and the workers run beside each other and the streams cut up what they carry:
the messages that the server has taken are those of distinct calls, whole and in the order in which
the calls were written, so no call is handled twice. -/
theorem tcp_handles_once
    (h : Runs (TcpSystem.step cfg (.tcp server peerAddr)) (TcpSystem.Carries cfg) (.initial cfg)
      s) : ∃ ids : List ℕ, ids.Nodup ∧ List.Forall₂ s.Handles ids s.server.messages :=
  (TcpSystem.Joined.of_runs h).handled

/-- A call that finished with a message has it, or the envelope of it, in exchange for a request of
the client with its own transaction id; for its own request, if no other call has that id. -/
theorem tcp_exchange (hbounded : server.Bounded)
    (h : Runs (TcpSystem.step cfg (.tcp server peerAddr)) (TcpSystem.Carries cfg) (.initial cfg) s)
    {id : ℕ} {reply : Reply R} {message : RpcMessage}
    (hfinished : (s.client.calls id).phase = .finished reply) (hok : reply.result = .ok message) :
    ∃ own m : RpcMessage, s.requests[id]? = some own ∧
      message = (if (s.client.calls id).sender.isBuffered then m else m.header) ∧
      (∃ (other : ℕ) (request : RpcMessage), s.requests[other]? = some request ∧
        request.xid = own.xid ∧ server.Exchanges (some peerAddr) request m) ∧
      ((∀ (other : ℕ) (request : RpcMessage), s.requests[other]? = some request →
        request.xid = own.xid → other = id) →
        server.Exchanges (some peerAddr) own m) := by
  have hjoined := TcpSystem.Joined.of_runs h
  have hreg := Conn.RegistryInv.of_reachable (hjoined.clientRun.mono fun _ _ _ => trivial)
  have hexists : (s.client.calls id).phase ≠ .absent := by simp [hfinished]
  have hlt := Conn.lt_created hreg hexists
  obtain ⟨own, hown⟩ : ∃ own, s.requests[id]? = some own :=
    ⟨_, List.getElem?_eq_getElem (hjoined.length.symm ▸ hlt)⟩
  obtain ⟨records, r, rest, m, htaken, hdecode, hxid, hmessage⟩ :=
    Conn.exists_record hjoined.clientRun hfinished hok
  obtain ⟨other, request, hrequest, hexchanges⟩ := hjoined.exchanges hbounded htaken hdecode
  have hsame : request.xid = own.xid := by
    rw [← hexchanges.xid_eq, hxid, (hjoined.requests id own hown).1]
  refine ⟨own, m, hown, hmessage, ⟨other, request, hrequest, hsame, hexchanges⟩, fun hunique => ?_⟩
  obtain rfl := hunique other request hrequest hsame
  rw [hrequest] at hown
  exact Option.some.inj hown ▸ hexchanges

end Calls

/-! ## A call to a server without programs -/

/-- The client sends a call, the server answers it, and the client gets the reply. -/
def unknownExchange : List (TcpSystemAction Buffers Unit) :=
  let sends : List (Action Buffers) :=
    .admitCall (.classic (.nullCall 7)) ⟨false, .none⟩ :: Conn.sendSteps 0 44
  let serves : List (ServerAction Unit) :=
    [.decode, .read (.bytes (callRecord 7)), .decode, .spawn, .worker 0 (.handle ())] ++
      replySteps 0
  let receives : List (Action Buffers) :=
    [.read (.bytes [128, 0, 0, 24]), .read (.bytes [0, 0, 0, 7]), .turn,
      .read (.bytes [0, 0, 0, 1, 0, 0, 0, 0, 0, 0, 0, 0, 0, 0, 0, 0, 0, 0, 0, 1]), .turn] ++
      Conn.takeSteps 0
  sends.map .client ++ serves.map .server ++ receives.map .client

theorem exists_unknown_exchange : ∃ s : TcpSystem Buffers,
    Runs (TcpSystem.step .plain (.tcp (Server.empty : Server Unit) (.v4 0 0)))
      (TcpSystem.Carries .plain) (.initial .plain) s ∧
    (s.client.calls 0).phase.finalResult = some (.ok ⟨7, .reply programUnavailableReply⟩) ∧
    (s.client.calls 0).sender.isBuffered = true ∧ s.server.messages.map RpcMessage.xid = [7] := by
  obtain ⟨s, htrace, hview⟩ := @Trace.exists_of_runList _ _
    (TcpSystem.step .plain (.tcp (Server.empty : Server Unit) (.v4 0 0)))
    (TcpSystem.Carries .plain) (.initial .plain : TcpSystem Buffers)
    (fun s action => s.carries action && !s.client.receivesStopped) unknownExchange _
    (fun s => ((s.client.calls 0).phase.finalResult, (s.client.calls 0).sender.isBuffered,
      s.server.messages.map RpcMessage.xid))
    (some (.ok ⟨7, .reply programUnavailableReply⟩), true, [7])
    (fun s action hcheck => by
      obtain ⟨hcarries, hstopped⟩ := Bool.and_eq_true_iff.mp hcheck
      exact ⟨hcarries, fun _ _ => Conn.not_misreads_of_check (by simpa using hstopped)⟩)
    (by decide +kernel)
  obtain ⟨hresult, hrest⟩ := Prod.mk.inj hview
  exact ⟨s, htrace.runs, hresult, Prod.mk.inj hrest⟩

theorem tcp_handles_once_unknown : ∃ (s : TcpSystem Buffers) (id : ℕ) (request : RpcMessage),
    s.requests[id]? = some request ∧ s.server.messages.map RpcMessage.xid = [7] ∧
    request.xid = 7 := by
  obtain ⟨s, hrun, -, -, hxids⟩ := exists_unknown_exchange
  obtain ⟨message, hmessages, hxid⟩ := List.map_eq_singleton_iff.mp hxids
  obtain ⟨ids, -, hhandled⟩ := tcp_handles_once hrun
  rw [hmessages] at hhandled
  obtain ⟨id, -, request, bytes, hrequest, hencode, hdecode⟩ :=
    exists_of_mem_left hhandled.flip (List.mem_singleton_self message)
  refine ⟨s, id, request, hrequest, hxids, ?_⟩
  rw [← (RpcMessage.decode_of_encode hencode hdecode).1, hxid]

theorem tcp_exchange_unknown : ∃ (s : TcpSystem Buffers) (request : RpcMessage),
    request ∈ s.requests ∧ (Server.empty : Server Unit).Exchanges (some (.v4 0 0)) request
      ⟨7, .reply programUnavailableReply⟩ := by
  obtain ⟨s, hrun, hresult, hbuffered, -⟩ := exists_unknown_exchange
  unfold Phase.finalResult at hresult
  split at hresult
  · next reply hphase =>
    obtain ⟨own, m, -, hmessage, ⟨other, request, hrequest, -, hexchanges⟩, -⟩ :=
      tcp_exchange (by rintro program dispatch ⟨⟩) hrun hphase (Option.some.inj hresult)
    rw [hbuffered, if_pos rfl] at hmessage
    exact ⟨s, request, List.mem_of_getElem? hrequest, hmessage ▸ hexchanges⟩
  · cases hresult

end OncRpc
