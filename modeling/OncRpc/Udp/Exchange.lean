import OncRpc.Server.Exchange
import OncRpc.Udp.Registry
import OncRpc.Udp.Server

/-!
# Calls over a network

A datagram client and a datagram server with a network between them.  The network may lose, repeat
and reorder datagrams: a party receives any datagram that the other one has ever sent to it, at any
time and any number of times.  It carries datagrams of a bounded size, and does not make them up.
Other clients send the server whatever they like.

`UdpSystem.step` is a step of one of the two parties, and `UdpSystem.carries` says of a step that
the network allows it.  The invariant `UdpSystem.Authentic` follows a message through the parties;
`udp_exchange` is what it comes to for a call.
-/

namespace OncRpc

open Foundation

variable {Ω : Type}

/-- The size of the datagrams that a network carries; the buffers of both parties hold them. -/
structure UdpNetwork where
  maxDatagram : ℕ
  fits : maxDatagram ≤ 65536

/-- A client, a server, and the datagrams the client has sent. -/
structure UdpSystem where
  client : UdpClient
  server : UdpServer
  sent : List Bytes

/-- A step of one of the parties. -/
inductive UdpSystemAction (Ω : Type) where
  | client (action : UdpAction)
  | server (action : UdpServerAction Ω)

/-- What a step of the client gives to the network. -/
def UdpClient.puts (s : UdpClient) : UdpAction → List Bytes
  | .step id (.sent (.ok ())) =>
    match (s.calls id).request.encode with
    | .ok bytes => [bytes]
    | .error _ => []
  | _ => []

/-- The reply that a task is sending. -/
def UdpServer.offers (s : UdpServer) (id : ℕ) : List Bytes :=
  match (s.tasks[id]?).map UdpTask.phase with
  | some (.sending payload) => [payload]
  | _ => []

namespace UdpSystem

/-- A new client and a server socket that has just been bound. -/
def initial (workerThreads : ℕ) : UdpSystem := ⟨.initial, .initial workerThreads, []⟩

/-- One step of a party. -/
def step (cfg : UdpConfig) (server : Server Ω) (s : UdpSystem) :
    UdpSystemAction Ω → Option UdpSystem
  | .client action =>
    (UdpClient.step cfg s.client action).map fun client =>
      { s with client := client, sent := s.sent ++ s.client.puts action }
  | .server action =>
    (UdpServer.step server s.server action).map fun socket => { s with server := socket }

/-- The network between a server and the client at an address allows a step. -/
def carries (network : UdpNetwork) (address : SocketAddr) (s : UdpSystem) :
    UdpSystemAction Ω → Bool
  | .client (.datagram bytes) => decide ((address, bytes) ∈ s.server.output)
  | .client action => (s.client.puts action).all fun bytes => bytes.length ≤ network.maxDatagram
  | .server (.receive peer bytes) | .server (.receiveOnce _ peer bytes) =>
    decide (peer = address → bytes ∈ s.sent)
  | .server (.task id (.sent (.ok ()))) =>
    (s.server.offers id).all fun payload => payload.length ≤ network.maxDatagram
  | .server _ => true

end UdpSystem

/-! ## The messages of a client -/

namespace UdpClient

variable {cfg : UdpConfig} {s t : UdpClient}

/-- The reader has the message, or a call was given it. -/
def Has (s : UdpClient) (message : RpcMessage) : Prop :=
  s.reader = .decoded message ∨ (∃ id, s.reader = .found id message) ∨
    ∃ id, (s.calls id).channel = some (.ok message)

/-- A value in the channel of a call is the one sent, or was there before. -/
theorem channel_send {id other : ℕ} {result : Except RuntimeError RpcMessage} {message : RpcMessage}
    (h : ((s.send id result).calls other).channel = some (.ok message)) :
    result = .ok message ∨ (s.calls other).channel = some (.ok message) := by
  unfold send at h
  by_cases hne : other = id
  · subst hne
    rw [put_calls_self] at h
    exact .inl (Option.some.inj h)
  · rw [put_calls_of_ne hne] at h
    exact .inr h

/-- A client without a message in its reader has those of its channels. -/
theorem Has.of_channels {message : RpcMessage} (h : t.Has message)
    (hdecoded : t.reader ≠ .decoded message) (hfound : ∀ id, t.reader ≠ .found id message)
    (hchannels : ∀ id, (t.calls id).channel = some (.ok message) → s.Has message) :
    s.Has message := by
  rcases h with hreader | ⟨id, hreader⟩ | ⟨id, hchannel⟩
  · exact absurd hreader hdecoded
  · exact absurd hreader (hfound id)
  · exact hchannels id hchannel

/-- A step of the reader that receives nothing brings no message. -/
theorem has_of_readerStep {action : UdpAction} {message : RpcMessage}
    (h : s.readerStep action = some t) (hno : ∀ bytes, action ≠ .datagram bytes)
    (hhas : t.Has message) : s.Has message := by
  have hold : ∀ id, (s.calls id).channel = some (.ok message) → s.Has message :=
    fun id hchannel => .inr (.inr ⟨id, hchannel⟩)
  cases action with
  | datagram bytes => exact absurd rfl (hno bytes)
  | receiveError error =>
    rcases hreader : s.reader with _ | _ | _ | _ | _ | _ <;>
      simp only [readerStep, hreader, reduceCtorEq] at h
    obtain rfl := Option.some.inj h
    exact hhas.of_channels (by simp) (by simp) hold
  | lookup =>
    rcases hreader : s.reader with _ | decoded | _ | _ | _ | _ <;>
      simp only [readerStep, hreader, reduceCtorEq] at h
    rcases hentry : s.pending.lookup decoded.xid with _ | id
    · simp only [hentry] at h
      obtain rfl := Option.some.inj h
      exact hhas.of_channels (by simp) (by simp) hold
    · simp only [hentry] at h
      obtain rfl := Option.some.inj h
      rcases hhas with hdecoded | ⟨other, hfound⟩ | ⟨other, hchannel⟩
      · simp at hdecoded
      · obtain ⟨-, rfl⟩ : id = other ∧ decoded = message := by simpa using hfound
        exact .inl hreader
      · exact hold other hchannel
  | answer =>
    rcases hreader : s.reader with _ | _ | ⟨id, found⟩ | _ | _ | _ <;>
      simp only [readerStep, hreader, reduceCtorEq] at h
    obtain rfl := Option.some.inj h
    refine hhas.of_channels (by simp) (by simp) fun other hchannel => ?_
    rcases channel_send hchannel with hsent | hchannel
    · obtain rfl := Except.ok.inj hsent
      exact .inr (.inl ⟨id, hreader⟩)
    · exact hold other hchannel
  | takeAll =>
    rcases hreader : s.reader with _ | _ | _ | _ | _ | _ <;>
      simp only [readerStep, hreader, reduceCtorEq] at h
    obtain rfl := Option.some.inj h
    exact hhas.of_channels (by simp) (by simp) hold
  | failNext xid =>
    rcases hreader : s.reader with _ | _ | _ | _ | ⟨remaining, error⟩ | _ <;>
      simp only [readerStep, hreader, reduceCtorEq] at h
    obtain ⟨id, -, rfl⟩ := Option.map_eq_some_iff.mp h
    refine hhas.of_channels (by simp) (by simp) fun other hchannel => ?_
    rcases channel_send hchannel with hsent | hchannel
    · cases hsent
    · exact hold other hchannel
  | failDone =>
    rcases hreader : s.reader with _ | _ | _ | _ | ⟨remaining, error⟩ | _ <;>
      simp only [readerStep, hreader, reduceCtorEq] at h
    split_ifs at h
    obtain rfl := Option.some.inj h
    exact hhas.of_channels (by simp) (by simp) hold
  | abortReader =>
    rcases hreader : s.reader with _ | _ | _ | _ | _ | _ <;>
      simp only [readerStep, hreader, reduceCtorEq] at h
    obtain rfl := Option.some.inj h
    exact hhas.of_channels (by simp) (by simp) hold
  | call | step => simp [readerStep] at h

/-- Only a datagram brings a message. -/
theorem has_of_step {action : UdpAction} {message : RpcMessage}
    (h : UdpClient.step cfg s action = some t) (hhas : t.Has message) :
    s.Has message ∨ ∃ bytes, action = .datagram bytes ∧
      RpcMessage.decode (bytes.take bufferSize) = .ok message := by
  cases action with
  | call request options =>
    obtain rfl := Option.some.inj h
    left
    rcases hhas with hdecoded | hfound | ⟨id, hchannel⟩
    · exact .inl hdecoded
    · exact .inr (.inl hfound)
    · by_cases hne : id = s.created
      · subst hne
        simp at hchannel
      · have heq := put_calls_of_ne hne s ⟨request, options, .entered, none, false⟩
        simp only [heq] at hchannel
        exact .inr (.inr ⟨id, hchannel⟩)
  | step id act =>
    obtain ⟨hreader, hcalls, hown⟩ := keeps_of_callMoves (moves_of_callStep h)
    left
    unfold Has at hhas ⊢
    rw [hreader] at hhas
    refine hhas.imp_right fun hhas => hhas.imp_right fun ⟨other, hchannel⟩ => ⟨other, ?_⟩
    by_cases hne : other = id
    · subst hne
      rwa [hown] at hchannel
    · rwa [hcalls other hne] at hchannel
  | datagram bytes =>
    rcases hreader : s.reader with _ | _ | _ | _ | _ | _ <;>
      simp only [UdpClient.step, readerStep, hreader, reduceCtorEq] at h
    obtain rfl := Option.some.inj h
    unfold UdpClient.datagram at hhas
    split_ifs at hhas
    · exact .inl hhas
    · split at hhas
      · exact .inl hhas
      · next decoded hdecode =>
        rcases hhas with hdecoded | ⟨other, hfound⟩ | hchannel
        · obtain rfl : decoded = message := by simpa using hdecoded
          exact .inr ⟨bytes, rfl, hdecode⟩
        · simp at hfound
        · exact .inl (.inr (.inr hchannel))
  | receiveError | lookup | answer | takeAll | failNext | failDone | abortReader =>
    simp only [UdpClient.step] at h
    exact .inl (has_of_readerStep h (by simp) hhas)

/-- A step of a call keeps its request. -/
theorem request_of_callMoves {id : ℕ} (h : UdpCallMoves s id t) (other : ℕ) :
    (t.calls other).request = (s.calls other).request := by
  by_cases hne : other = id
  · subst hne
    cases h with
    | advance | register => simp [goto]
    | unregister =>
      unfold unregister
      simp only
      split_ifs <;> simp [goto]
  · rw [(keeps_of_callMoves h).2.1 other hne]

/-- The requests of the calls that exist stay. -/
theorem request_of_step {action : UdpAction} (h : UdpClient.step cfg s action = some t) :
    s.created ≤ t.created ∧ ∀ id, id < s.created → (t.calls id).request = (s.calls id).request := by
  have hsend : ∀ (id : ℕ) (result : Except RuntimeError RpcMessage) (other : ℕ),
      ((s.send id result).calls other).request = (s.calls other).request := by
    intro id result other
    unfold send
    by_cases hne : other = id
    · subst hne
      rw [put_calls_self]
    · rw [put_calls_of_ne hne]
  rcases moves_of_step h with ⟨request, options⟩ | ⟨id, hcall⟩ | _ | _ | ⟨id, _⟩
    | _ | ⟨xid, id, _, _⟩
  · refine ⟨Nat.le_succ _, fun id hlt => ?_⟩
    have heq := put_calls_of_ne hlt.ne s ⟨request, options, .entered, none, false⟩
    simp only [heq]
  · refine ⟨?_, fun other _ => request_of_callMoves hcall other⟩
    cases hcall with
    | advance | register => exact le_rfl
    | unregister =>
      unfold unregister
      simp only
      split_ifs <;> exact le_rfl
  · exact ⟨le_rfl, fun _ _ => rfl⟩
  · exact ⟨le_rfl, fun _ _ => rfl⟩
  · exact ⟨le_rfl, fun other _ => hsend id _ other⟩
  · exact ⟨le_rfl, fun _ _ => rfl⟩
  · exact ⟨le_rfl, fun other _ => hsend id _ other⟩

end UdpClient

/-! ## The invariant -/

/-- Errors of the wire do not turn into results. -/
theorem decodeRpcMessageDatagram_eq_ok {datagram : Bytes} {message : RpcMessage}
    (h : decodeRpcMessageDatagram datagram = .ok message) :
    RpcMessage.decode datagram = .ok message := by
  unfold decodeRpcMessageDatagram at h
  rcases hdecode : RpcMessage.decode datagram with error | decoded
  · simp [hdecode, Except.mapError] at h
  · simpa [hdecode, Except.mapError] using h

theorem encodeRpcMessageDatagram_eq_ok {message : RpcMessage} {datagram : Bytes}
    (h : encodeRpcMessageDatagram message = .ok datagram) : message.encode = .ok datagram := by
  unfold encodeRpcMessageDatagram at h
  rcases hencode : message.encode with error | encoded
  · simp [hencode, Except.mapError] at h
  · simpa [hencode, Except.mapError] using h

namespace UdpSystem

variable {network : UdpNetwork} {cfg : UdpConfig} {server : Server Ω} {address : SocketAddr}
  {s t : UdpSystem}

/-- What the parties have from each other: the datagrams of the client are its requests, the server
has taken what the client sent, and the messages of the client are exchanged for requests of it. -/
structure Authentic (network : UdpNetwork) (server : Server Ω) (address : SocketAddr)
    (s : UdpSystem) : Prop where
  registered : s.client.Registered
  served : ∃ permits, UdpServer.Served server permits s.server
  sent : ∀ bytes ∈ s.sent, bytes.length ≤ network.maxDatagram ∧
    ∃ id, id < s.client.created ∧ (s.client.calls id).request.encode = .ok bytes
  received : ∀ bytes, (address, bytes) ∈ s.server.received → bytes ∈ s.sent
  output : ∀ bytes, (address, bytes) ∈ s.server.output → bytes.length ≤ network.maxDatagram
  has : ∀ message, s.client.Has message →
    ∃ id, id < s.client.created ∧ server.Exchanges (some address)
      (s.client.calls id).request message

theorem Authentic.initial (workerThreads : ℕ) :
    Authentic network server address (.initial workerThreads) where
  registered := .initial
  served := ⟨_, .initial server workerThreads⟩
  sent bytes hmem := absurd hmem List.not_mem_nil
  received bytes hmem := absurd hmem List.not_mem_nil
  output bytes hmem := absurd hmem List.not_mem_nil
  has message h := by
    rcases h with hdecoded | ⟨id, hfound⟩ | ⟨id, hchannel⟩
    · cases hdecoded
    · cases hfound
    · cases hchannel

/-- A datagram that the server has sent to the client is exchanged for a request of the client. -/
theorem Authentic.exchanges (h : Authentic network server address s) {bytes : Bytes}
    {message : RpcMessage} (hmem : (address, bytes) ∈ s.server.output)
    (hdecode : RpcMessage.decode (bytes.take UdpClient.bufferSize) = .ok message) :
    ∃ id, id < s.client.created ∧
      server.Exchanges (some address) (s.client.calls id).request message := by
  obtain ⟨permits, hserved⟩ := h.served
  obtain ⟨ids, hdelivered⟩ := hserved.delivered
  obtain ⟨id, -, task, htask, -, hpeer, seen, world, reply, hseen, hreply, hencode⟩ :=
    exists_of_mem_left hdelivered.replies.flip hmem
  -- The task was spawned for a datagram that the client has sent.
  have horigin : (address, task.datagram) ∈ s.server.received := by
    have hmap : task.origin ∈ s.server.tasks.map UdpTask.origin :=
      List.mem_map_of_mem (List.mem_of_getElem? htask)
    have hle := (Multiset.le_add_right _ _).trans hserved.datagrams
    rw [show address = task.peer from hpeer]
    exact Multiset.mem_coe.mp (Multiset.mem_of_le hle (Multiset.mem_coe.mpr hmap))
  obtain ⟨-, caller, hlt, hrequest⟩ := h.sent _ (h.received _ horigin)
  have hwhole : bytes.take UdpClient.bufferSize = bytes :=
    List.take_of_length_le ((h.output bytes hmem).trans network.fits)
  rw [hwhole] at hdecode
  refine ⟨caller, hlt, task.datagram, seen, world, reply, bytes, hrequest,
    decodeRpcMessageDatagram_eq_ok hseen, ?_, encodeRpcMessageDatagram_eq_ok hencode, hdecode⟩
  rwa [show address = task.peer from hpeer]

/-- A step of the client. -/
theorem Authentic.client (h : Authentic network server address s) {action : UdpAction}
    {client : UdpClient}
    (hcarries : s.carries network address (.client action : UdpSystemAction Ω) = true)
    (hstep : UdpClient.step cfg s.client action = some client) :
    Authentic network server address
      { s with client := client, sent := s.sent ++ s.client.puts action } := by
  obtain ⟨hcreated, hrequests⟩ := UdpClient.request_of_step hstep
  have hcalls : ∀ {P : RpcMessage → Prop},
      (∃ id, id < s.client.created ∧ P (s.client.calls id).request) →
      ∃ id, id < client.created ∧ P (client.calls id).request := by
    rintro P ⟨id, hlt, hP⟩
    exact ⟨id, hlt.trans_le hcreated, by rwa [hrequests id hlt]⟩
  refine ⟨h.registered.move (UdpClient.moves_of_step hstep), h.served, fun bytes hmem => ?_,
    fun bytes hmem => List.mem_append_left _ (h.received bytes hmem), h.output,
    fun message hhas => ?_⟩
  · rcases List.mem_append.mp hmem with hold | hnew
    · obtain ⟨hlen, hcall⟩ := h.sent bytes hold
      exact ⟨hlen, hcalls (P := fun m => m.encode = .ok bytes) hcall⟩
    · obtain ⟨id, rfl, hrequest⟩ : ∃ id, action = .step id (.sent (.ok ())) ∧
          (s.client.calls id).request.encode = .ok bytes := by
        unfold UdpClient.puts at hnew
        split at hnew
        · next id =>
          split at hnew
          · next encoded hencode =>
            exact ⟨id, rfl, by rw [hencode, List.mem_singleton.mp hnew]⟩
          · simp at hnew
        · simp at hnew
      have hlt : id < s.client.created := by
        refine h.registered.lt_created fun habsent => ?_
        simp [UdpClient.step, UdpClient.callStep, habsent] at hstep
      have hlen : bytes.length ≤ network.maxDatagram := by
        simpa [carries, UdpClient.puts, hrequest] using hcarries
      exact ⟨hlen, hcalls (P := fun m => m.encode = .ok bytes) ⟨id, hlt, hrequest⟩⟩
  · refine hcalls (P := fun request => server.Exchanges (some address) request message) ?_
    rcases UdpClient.has_of_step hstep hhas with hold | ⟨bytes, rfl, hdecode⟩
    · exact h.has message hold
    · exact h.exchanges (of_decide_eq_true hcarries) hdecode

/-- A step of the server. -/
theorem Authentic.socket (h : Authentic network server address s) {action : UdpServerAction Ω}
    {socket : UdpServer} (hcarries : s.carries network address (.server action) = true)
    (hstep : UdpServer.step server s.server action = some socket) :
    Authentic network server address { s with server := socket } := by
  obtain ⟨permits, hserved⟩ := h.served
  refine ⟨h.registered, ⟨permits, hserved.move (UdpServer.moves_of_step hstep)⟩, h.sent,
    fun bytes hmem => ?_, fun bytes hmem => ?_, h.has⟩
  · simp only [UdpServer.received_of_step hstep, List.mem_append] at hmem
    rcases hmem with hold | hnew
    · exact h.received bytes hold
    · obtain ⟨datagram, hsent, rfl⟩ : ∃ datagram ∈ s.sent, bytes = recvUdpDatagram datagram := by
        cases action with
        | receive peer datagram | receiveOnce _ peer datagram =>
          obtain ⟨hpeer, hbytes⟩ := Prod.mk.inj (List.mem_singleton.mp hnew)
          exact ⟨datagram, of_decide_eq_true hcarries hpeer.symm, hbytes⟩
        | _ => simp [UdpServerAction.taken] at hnew
      have hwhole : recvUdpDatagram datagram = datagram :=
        List.take_of_length_le ((h.sent datagram hsent).1.trans network.fits)
      rwa [hwhole]
  · rcases UdpServer.output_of_step hstep with hsame
      | ⟨id, task, payload, rfl, htask, hphase, houtput⟩
    · rw [hsame] at hmem
      exact h.output bytes hmem
    · simp only [houtput, List.mem_append, List.mem_singleton] at hmem
      rcases hmem with hold | hnew
      · exact h.output bytes hold
      · obtain ⟨-, rfl⟩ := Prod.mk.inj hnew
        simpa [carries, UdpServer.offers, htask, hphase] using hcarries

theorem Authentic.of_runs {workerThreads : ℕ}
    (h : Runs (step cfg server) (fun s action => s.carries network address action = true)
      (.initial workerThreads) s) :
    Authentic network server address s := by
  refine h.invariant (Authentic network server address) (.initial workerThreads) ?_
  intro u action v hu hcarries hstep
  cases action with
  | client action =>
    obtain ⟨client, hclient, rfl⟩ := Option.map_eq_some_iff.mp hstep
    exact hu.client hcarries hclient
  | server action =>
    obtain ⟨socket, hsocket, rfl⟩ := Option.map_eq_some_iff.mp hstep
    exact hu.socket hcarries hsocket

end UdpSystem

/-! ## Calls -/

/-- Whatever the network loses, repeats and reorders, and whatever other clients send: a call that
ends with a message has it in exchange for a request of the client with its own transaction id; for
its own request, if no other call has that id. -/
theorem udp_exchange {network : UdpNetwork} {cfg : UdpConfig} {server : Server Ω}
    {address : SocketAddr} {workerThreads : ℕ} {s : UdpSystem}
    (h : Runs (UdpSystem.step cfg server) (fun s action => s.carries network address action = true)
      (.initial workerThreads) s) {id : ℕ} {message : RpcMessage}
    (hended : (s.client.calls id).phase = .ended (some (.ok message))) :
    (∃ other, other < s.client.created ∧
      (s.client.calls other).request.xid = (s.client.calls id).request.xid ∧
      server.Exchanges (some address) (s.client.calls other).request message) ∧
    ((∀ other, other < s.client.created →
      (s.client.calls other).request.xid = (s.client.calls id).request.xid → other = id) →
      server.Exchanges (some address) (s.client.calls id).request message) := by
  have hauthentic := UdpSystem.Authentic.of_runs h
  have hchannel := hauthentic.registered.outcome id message (.inr hended)
  have hxid := hauthentic.registered.channel id message hchannel
  obtain ⟨other, hlt, hexchanges⟩ := hauthentic.has message (.inr (.inr ⟨id, hchannel⟩))
  have hsame : (s.client.calls other).request.xid = (s.client.calls id).request.xid :=
    hexchanges.xid_eq.symm.trans hxid
  exact ⟨⟨other, hlt, hsame, hexchanges⟩, fun hunique => hunique other hlt hsame ▸ hexchanges⟩

/-! ## A call of an unknown program, over a network that repeats datagrams -/

/-- A network of small datagrams. -/
def strayNetwork : UdpNetwork := ⟨1472, by decide⟩

/-- The client sends a call, the server answers it twice, and the client gets the reply twice. -/
def strayExchange : List (UdpSystemAction Unit) :=
  [.client (.call ⟨7, .call ⟨2, ⟨3, 1⟩, 0, .none, .none, []⟩⟩ ⟨false, .none⟩),
    .client (.step 0 .register), .client (.step 0 (.sent (.ok ()))), .server .serve,
    .server .acquire, .server (.receive (.v4 1 700) strayDatagram), .server .acquire,
    .server (.receive (.v4 1 700) strayDatagram), .server (.task 1 .decode),
    .server (.task 1 (.handle ())), .server (.task 1 (.sent (.ok ()))), .server (.task 0 .decode),
    .server (.task 0 (.handle ())), .server (.task 0 (.sent (.ok ()))),
    .client (.datagram strayReply), .client .lookup, .client .answer,
    .client (.datagram strayReply), .client .lookup, .client (.step 0 .receive),
    .client (.step 0 .unregister)]

theorem exists_stray_exchange :
    ∃ s, Trace (UdpSystem.step ⟨none, none⟩ (Server.empty : Server Unit))
      (fun s action => s.carries strayNetwork (.v4 1 700) action = true) (.initial 2)
      strayExchange s ∧
      (s.client.calls 0).phase = .ended (some (.ok ⟨7, .reply programUnavailableReply⟩)) :=
  @Trace.exists_of_runList _ _ _ _ _
    (fun s action => s.carries strayNetwork (.v4 1 700) action) _ _
    (fun s : UdpSystem => (s.client.calls 0).phase) _ (fun _ _ h => h) (by decide +kernel)

theorem udp_exchange_stray :
    ∃ s : UdpSystem, ∃ other, other < s.client.created ∧
      (Server.empty : Server Unit).Exchanges (some (.v4 1 700)) (s.client.calls other).request
        ⟨7, .reply programUnavailableReply⟩ := by
  obtain ⟨s, htrace, hended⟩ := exists_stray_exchange
  obtain ⟨other, hlt, -, hexchanges⟩ := (udp_exchange htrace.runs hended).1
  exact ⟨s, other, hlt, hexchanges⟩

end OncRpc
