import OncRpc.Wire.RoundTrip
import Mathlib.Data.List.AList

/-!
# Dispatching calls

A server keeps one dispatcher for each program and version.  A decoded call is turned into a request
for the dispatcher of its program, and what that returns into the body of a reply; a reply in place
of a call is refused.

What a dispatcher returns may depend on more than its request: on the state of the service, on the
time of the call.  `Ω` stands for all of that, so a dispatcher is a function of a value of `Ω` and
of the request.  A server with asynchronous dispatchers does the same and awaits the dispatcher,
which makes no difference to what is computed.
-/

namespace OncRpc

open Foundation

/-- A socket address. -/
inductive SocketAddr where
  | v4 (address : BitVec 32) (port : UInt16)
  | v6 (address : BitVec 128) (port : UInt16) (flowInfo scopeId : UInt32)
  deriving DecidableEq

/-- A program and version that is served. -/
structure Program where
  number : UInt32
  version : UInt32
  deriving DecidableEq, Repr

/-- The program of a call. -/
def Program.from (value : ProgramVersion) : Program := ⟨value.program, value.version⟩

/-- What a dispatcher is given. -/
structure RequestContext where
  xid : Xid
  program : ProgramVersion
  procedure : Procedure
  peerAddr : Option SocketAddr
  credentials : OpaqueAuth
  verifier : OpaqueAuth
  payload : Bytes
  deriving DecidableEq

/-- What a dispatcher returns. -/
structure ResponsePayload where
  verifier : OpaqueAuth
  payload : Bytes
  deriving DecidableEq

/-- How a dispatcher fails. -/
inductive DispatchError where
  | procedureUnavailable
  | garbageArgs
  | systemError
  deriving DecidableEq

/-- How a server fails. -/
inductive ServerError where
  | duplicateRegistration (program : Program)
  | unexpectedReplyMessage
  deriving DecidableEq

/-- A dispatcher. -/
abbrev Dispatch (Ω : Type) := Ω → RequestContext → Except DispatchError ResponsePayload

/-- A server: its dispatchers by program. -/
structure Server (Ω : Type) where
  dispatchers : AList fun _ : Program => Dispatch Ω

/-! ## Replies -/

/-- The reply to a call that was served. -/
def successReply (response : ResponsePayload) : ReplyBody :=
  .accepted ⟨response.verifier, .success response.payload⟩

def procedureUnavailableReply : ReplyBody := .accepted ⟨.none, .procedureUnavailable⟩

def garbageArgsReply : ReplyBody := .accepted ⟨.none, .garbageArgs⟩

def systemErrorReply : ReplyBody := .accepted ⟨.none, .systemError⟩

def programUnavailableReply : ReplyBody := .accepted ⟨.none, .programUnavailable⟩

namespace Server

variable {Ω : Type}

/-- A server without dispatchers. -/
def empty : Server Ω := ⟨∅⟩

/-- Add a dispatcher for a program that has none. -/
def register (server : Server Ω) (program : Program) (dispatch : Dispatch Ω) :
    Except ServerError (Server Ω) :=
  match server.dispatchers.lookup program with
  | some _ => .error (.duplicateRegistration program)
  | none => .ok ⟨server.dispatchers.insert program dispatch⟩

/-- The transaction id, the request and the dispatcher of a call. -/
def resolveDispatch (server : Server Ω) (message : RpcMessage) (peerAddr : Option SocketAddr) :
    Except ServerError (Xid × RequestContext × Option (Dispatch Ω)) :=
  match message.body with
  | .reply _ => .error .unexpectedReplyMessage
  | .call call =>
    let request : RequestContext :=
      { xid := message.xid, program := call.program, procedure := call.procedure,
        peerAddr := peerAddr, credentials := call.credentials, verifier := call.verifier,
        payload := call.payload }
    .ok (message.xid, request, server.dispatchers.lookup (.from call.program))

/-- The reply to a message. -/
def handleMessageWithPeerAddr (server : Server Ω) (world : Ω) (message : RpcMessage)
    (peerAddr : Option SocketAddr) : Except ServerError RpcMessage := do
  let (xid, request, dispatcher) ← server.resolveDispatch message peerAddr
  let body := match dispatcher with
    | some dispatch =>
      match dispatch world request with
      | .ok response => successReply response
      | .error .procedureUnavailable => procedureUnavailableReply
      | .error .garbageArgs => garbageArgsReply
      | .error .systemError => systemErrorReply
    | none => programUnavailableReply
  return ⟨xid, .reply body⟩

/-- The reply to a message from nowhere in particular. -/
def handleMessage (server : Server Ω) (world : Ω) (message : RpcMessage) :
    Except ServerError RpcMessage :=
  server.handleMessageWithPeerAddr world message none

/-- Every verifier a dispatcher of the server returns fits an authentication body. -/
def Bounded (server : Server Ω) : Prop :=
  ∀ program dispatch, server.dispatchers.lookup program = some dispatch →
    ∀ world request response, dispatch world request = .ok response → response.verifier.Fits

variable {server : Server Ω} {world : Ω} {message reply : RpcMessage}
  {peerAddr : Option SocketAddr}

/-- Replies are refused, and nothing else is. -/
theorem handleMessageWithPeerAddr_error_iff :
    (∃ error, server.handleMessageWithPeerAddr world message peerAddr = .error error) ↔
      ∃ body, message.body = .reply body := by
  unfold handleMessageWithPeerAddr resolveDispatch
  cases hbody : message.body with
  | call call => simp [bind, Except.bind, pure, Except.pure]
  | reply body => simp [bind, Except.bind]

/-- A reply keeps the transaction id of the call it answers. -/
theorem xid_of_handleMessage
    (h : server.handleMessageWithPeerAddr world message peerAddr = .ok reply) :
    reply.xid = message.xid ∧ ∃ call, message.body = .call call := by
  unfold handleMessageWithPeerAddr resolveDispatch at h
  cases hbody : message.body with
  | call call =>
    simp only [hbody, bind, Except.bind, pure, Except.pure, Except.ok.injEq] at h
    exact ⟨h ▸ rfl, call, rfl⟩
  | reply body =>
    simp only [hbody, bind, Except.bind] at h
    cases h

/-- The replies of a server with bounded verifiers can be encoded. -/
theorem fits_of_handleMessage (hbounded : server.Bounded)
    (h : server.handleMessageWithPeerAddr world message peerAddr = .ok reply) : reply.Fits := by
  have hnone : OpaqueAuth.none.Fits := Nat.zero_le _
  unfold handleMessageWithPeerAddr resolveDispatch at h
  cases hbody : message.body with
  | reply body =>
    simp only [hbody, bind, Except.bind] at h
    cases h
  | call call =>
    simp only [hbody, bind, Except.bind, pure, Except.pure, Except.ok.injEq] at h
    subst h
    simp only [RpcMessage.Fits]
    split
    · next dispatch hlookup =>
      split
      · next response hresponse => exact hbounded _ _ hlookup _ _ _ hresponse
      · exact hnone
      · exact hnone
      · exact hnone
    · exact hnone

end Server

end OncRpc
