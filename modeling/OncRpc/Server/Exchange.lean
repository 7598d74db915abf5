import OncRpc.Server.Dispatch

/-!
# Exchanging messages with a server

What a client gets for a request, whatever carries the two messages: the server reads the encoded
request, and the client the encoded reply.  `Server.Exchanges` is that relation.  The transports are
compared with it: what they deliver to a call is such a message.
-/

namespace OncRpc

open Foundation

variable {Ω : Type}

/-- The message is what a client reads from the reply of the server to what the server reads from
the request. -/
def Server.Exchanges (server : Server Ω) (peerAddr : Option SocketAddr)
    (request message : RpcMessage) : Prop :=
  ∃ bytes seen world reply payload, request.encode = .ok bytes ∧
    RpcMessage.decode bytes = .ok seen ∧
    server.handleMessageWithPeerAddr world seen peerAddr = .ok reply ∧
    reply.encode = .ok payload ∧ RpcMessage.decode payload = .ok message

/-- A message starts with its transaction id. -/
theorem RpcMessage.xid_of_wire {m m' : RpcMessage} (h : m.wire = m'.wire) : m.xid = m'.xid := by
  obtain ⟨xid, body⟩ := m
  obtain ⟨xid', body'⟩ := m'
  rcases body with call | reply <;> rcases body' with call' | reply' <;>
    exact (beBytes_append_inj.mp h).1

/-- What is read from an encoded message has its transaction id, and is the message itself if that
is canonical. -/
theorem RpcMessage.decode_of_encode {m seen : RpcMessage} {bytes : Bytes}
    (hencode : m.encode = .ok bytes) (hdecode : RpcMessage.decode bytes = .ok seen) :
    seen.xid = m.xid ∧ (m.IsCanonical → seen = m) := by
  obtain ⟨hfits, hwire⟩ := (RpcMessage.encode_eq_ok_iff m bytes).mp hencode
  obtain ⟨-, -, hseen⟩ := (RpcMessage.decode_eq_ok_iff_wire bytes seen).mp hdecode
  refine ⟨RpcMessage.xid_of_wire (hseen.symm.trans hwire), fun hcanonical => ?_⟩
  have hself := (RpcMessage.decode_eq_ok_iff_wire bytes m).mpr ⟨hcanonical, hfits, hwire⟩
  exact Except.ok.inj (hdecode.symm.trans hself)

namespace Server.Exchanges

variable {server : Server Ω} {peerAddr : Option SocketAddr} {request message : RpcMessage}

/-- The message has the transaction id of the request. -/
theorem xid_eq (h : server.Exchanges peerAddr request message) : message.xid = request.xid := by
  obtain ⟨bytes, seen, world, reply, payload, hrequest, hseen, hreply, hencode, hdecode⟩ := h
  rw [(RpcMessage.decode_of_encode hencode hdecode).1, (xid_of_handleMessage hreply).1,
    (RpcMessage.decode_of_encode hrequest hseen).1]

/-- For a canonical request, it is the server's own reply, if that is canonical too. -/
theorem of_canonical (h : server.Exchanges peerAddr request message)
    (hcanonical : request.IsCanonical) :
    ∃ world reply, server.handleMessageWithPeerAddr world request peerAddr = .ok reply ∧
      (reply.IsCanonical → message = reply) := by
  obtain ⟨bytes, seen, world, reply, payload, hrequest, hseen, hreply, hencode, hdecode⟩ := h
  obtain rfl := (RpcMessage.decode_of_encode hrequest hseen).2 hcanonical
  exact ⟨world, reply, hreply, (RpcMessage.decode_of_encode hencode hdecode).2⟩

end Server.Exchanges

end OncRpc
