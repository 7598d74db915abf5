import OncRpc.Foundation.Transition
import OncRpc.Owned.Call
import Mathlib.Data.List.AList

/-!
# Calls over a datagram socket

Any number of calls share one socket and one registry that maps the transaction ids in flight to the
calls waiting for them.  A call registers, sends its datagram, and waits for its one-shot channel;
it may fail to send, run into a deadline, be cancelled or be dropped at every await, and a guard
removes its registration when it ends.  One reader task takes datagrams from the socket, drops those
that are malformed, removes the entry a message names and sends it the message; if the socket fails,
the reader fails all entries and exits.

`UdpClient.step` is one step of one of these parties.  The registry is locked only inside a step;
the reader's receive, its lookup and its send are steps of their own, since other threads may act in
between.
-/

namespace OncRpc

open Foundation

/-! ## The parties -/

/-- What a datagram transport is set up with. -/
structure UdpConfig where
  defaultCallTimeout : Option ℕ
  writeTimeout : Option ℕ

/-- The result of a call, or `none` for a call whose future was dropped. -/
abbrev UdpOutcome := Option (Except RuntimeError RpcMessage)

/-- Where a call is. -/
inductive UdpPhase where
  | absent
  /-- Called, before it looks at its cancellation token. -/
  | entered
  /-- Registered; sending its datagram. -/
  | sending
  /-- Waiting for its channel. -/
  | waiting
  /-- The outcome is known; the registration guard is dropped. -/
  | ending (outcome : UdpOutcome)
  | ended (outcome : UdpOutcome)
  deriving DecidableEq

/-- A call and its one-shot channel. -/
structure UdpCall where
  request : RpcMessage
  options : CallOptions
  phase : UdpPhase
  /-- The value sent into the channel. -/
  channel : Option (Except RuntimeError RpcMessage)
  /-- The sender was dropped. -/
  senderGone : Bool

/-- The registry: for each transaction id in flight, the call that holds the token. -/
abbrev PendingMap := AList fun _ : Xid => ℕ

/-- Where the reader task is. -/
inductive UdpReader where
  /-- Waiting for a datagram. -/
  | receiving
  /-- A message was decoded and is about to be looked up. -/
  | decoded (message : RpcMessage)
  /-- The entry of a call was removed and the message is about to be sent to it. -/
  | found (call : ℕ) (message : RpcMessage)
  /-- The socket failed. -/
  | failing (error : RuntimeError)
  /-- The entries taken from the registry are failed one by one. -/
  | answering (remaining : PendingMap) (error : RuntimeError)
  | exited

/-- The state of a datagram transport. -/
structure UdpClient where
  pending : PendingMap
  calls : ℕ → UdpCall
  created : ℕ
  reader : UdpReader

/-- What a call does next. -/
inductive UdpCallAction where
  /-- It finds its cancellation token set before it registers. -/
  | cancelledEarly
  | register
  /-- The socket answers its send. -/
  | sent (result : Except IoError Unit)
  | writeTimeout
  | receive
  | interrupt (interrupt : Interrupt)
  /-- Its future is dropped. -/
  | drop
  /-- Its registration guard is dropped. -/
  | unregister
  deriving DecidableEq

/-- What can happen. -/
inductive UdpAction where
  | call (request : RpcMessage) (options : CallOptions)
  | step (id : ℕ) (action : UdpCallAction)
  /-- The reader receives a datagram. -/
  | datagram (bytes : Bytes)
  /-- The receive of the reader fails. -/
  | receiveError (error : IoError)
  | lookup
  | answer
  | takeAll
  | failNext (xid : Xid)
  | failDone
  /-- The reader task is dropped while it waits. -/
  | abortReader

namespace UdpClient

/-- A call that does not exist yet. -/
def absentCall : UdpCall where
  request := ⟨0, .call ⟨2, ⟨0, 0⟩, 0, .none, .none, []⟩⟩
  options := ⟨false, .none⟩
  phase := .absent
  channel := none
  senderGone := false

/-- A new transport. -/
def initial : UdpClient := ⟨∅, fun _ => absentCall, 0, .receiving⟩

variable (s : UdpClient)

/-- A call changes. -/
def put (id : ℕ) (call : UdpCall) : UdpClient :=
  { s with calls := Function.update s.calls id call }

/-- A call goes on to a phase. -/
def goto (id : ℕ) (phase : UdpPhase) : UdpClient := s.put id { s.calls id with phase := phase }

/-- A value is sent into the channel of a call. -/
def send (id : ℕ) (result : Except RuntimeError RpcMessage) : UdpClient :=
  s.put id { s.calls id with channel := some result }

/-! ## Calls -/

/-- Encode the request and register the call, unless its transaction id is in flight. -/
def register (id : ℕ) : UdpClient :=
  let xid := (s.calls id).request.xid
  match (s.calls id).request.encode with
  | .error error => s.goto id (.ended (some (.error (.wire error))))
  | .ok _ =>
    if (s.pending.lookup xid).isSome then
      s.goto id (.ended (some (.error duplicateXidError)))
    else { s.goto id .sending with pending := s.pending.insert xid id }

/-- The drop of the registration guard: remove the entry, if it is the call's own. -/
def unregister (id : ℕ) (outcome : UdpOutcome) : UdpClient :=
  let xid := (s.calls id).request.xid
  if s.pending.lookup xid = some id then
    { s.put id { s.calls id with phase := .ended outcome, senderGone := true } with
      pending := s.pending.erase xid }
  else s.goto id (.ended outcome)

/-- The value of the channel, or a closed connection if the sender was dropped without one. -/
def received (call : UdpCall) : Option (Except RuntimeError RpcMessage) :=
  match call.channel with
  | some result => some result
  | none => if call.senderGone then some (.error .connectionClosed) else none

/-- One step of a call. -/
def callStep (cfg : UdpConfig) (id : ℕ) (action : UdpCallAction) : Option UdpClient :=
  match (s.calls id).phase, action with
  | .entered, .cancelledEarly =>
    if (s.calls id).options.cancellation then some (s.goto id (.ended (some (.error .cancelled))))
    else none
  | .entered, .register => some (s.register id)
  | .entered, .drop => some (s.goto id (.ended none))
  | .sending, .sent (.ok ()) => some (s.goto id .waiting)
  | .sending, .sent (.error error) =>
    some (s.goto id (.ending (some (.error (.transport error.text)))))
  | .sending, .writeTimeout =>
    cfg.writeTimeout.map fun duration =>
      s.goto id (.ending (some (.error (.writeTimeout duration))))
  | .waiting, .receive =>
    (received (s.calls id)).map fun result => s.goto id (.ending (some result))
  | .sending, .interrupt interrupt | .waiting, .interrupt interrupt =>
    ((s.calls id).options.interrupted cfg.defaultCallTimeout interrupt).map fun error =>
      s.goto id (.ending (some (.error error)))
  | .sending, .drop | .waiting, .drop => some (s.goto id (.ending none))
  | .ending outcome, .unregister => some (s.unregister id outcome)
  | _, _ => none

/-! ## The reader -/

/-- The size of the reader's buffer. -/
def bufferSize : ℕ := 65536

/-- The reader after a datagram: empty and malformed ones are skipped. -/
def datagram (bytes : Bytes) : UdpClient :=
  if bytes = [] then s
  else match RpcMessage.decode (bytes.take bufferSize) with
  | .error _ => s
  | .ok message => { s with reader := .decoded message }

/-- One step of the reader. -/
def readerStep : UdpAction → Option UdpClient
  | .datagram bytes =>
    match s.reader with
    | .receiving => some (s.datagram bytes)
    | _ => none
  | .receiveError error =>
    match s.reader with
    | .receiving => some { s with reader := .failing (.transport error.text) }
    | _ => none
  | .lookup =>
    match s.reader with
    | .decoded message =>
      match s.pending.lookup message.xid with
      | some id =>
        some { s with pending := s.pending.erase message.xid, reader := .found id message }
      | none => some { s with reader := .receiving }
    | _ => none
  | .answer =>
    match s.reader with
    | .found id message => some { s.send id (.ok message) with reader := .receiving }
    | _ => none
  | .takeAll =>
    match s.reader with
    | .failing error => some { s with pending := ∅, reader := .answering s.pending error }
    | _ => none
  | .failNext xid =>
    match s.reader with
    | .answering remaining error =>
      (remaining.lookup xid).map fun id =>
        { s.send id (.error error) with reader := .answering (remaining.erase xid) error }
    | _ => none
  | .failDone =>
    match s.reader with
    | .answering remaining _ =>
      if remaining.entries.isEmpty then some { s with reader := .exited } else none
    | _ => none
  | .abortReader =>
    match s.reader with
    | .receiving => some { s with reader := .exited }
    | _ => none
  | .call .. | .step .. => none

/-- One step of the transport. -/
def step (cfg : UdpConfig) (s : UdpClient) : UdpAction → Option UdpClient
  | .call request options =>
    some { s.put s.created ⟨request, options, .entered, none, false⟩ with
      created := s.created + 1 }
  | .step id action => s.callStep cfg id action
  | action => s.readerStep action

end UdpClient

end OncRpc
