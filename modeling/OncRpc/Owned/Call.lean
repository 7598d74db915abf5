import OncRpc.Owned.Control
import OncRpc.Owned.Request
import OncRpc.Record.Write

/-!
# One call on an owned connection

A call future registers itself, waits for the writer lock, writes its frame under a guard, and
waits for its reply; it may be cancelled, time out, or be dropped at every await.  `Call.step` is
this future as a state machine.  Its states are the points between two accesses to data that other
tasks share, so a step touches the shared state at most once; what it does there is the `Effect` it
returns, and what it sees of the shared state is its `View`.

The lock of the registry, the call's control and its one-shot channel are each held only inside one
step.  Sending a value into the channel is joined with the step before it: nobody but the call
itself can tell the difference.
-/

namespace OncRpc

open Foundation

/-! ## Options -/

/-- What a connection is set up with; the sizes are those of the owned request and reply values. -/
structure Config where
  limits : RecordLimits
  valid : limits.Valid
  defaultCallTimeout : Option ℕ
  writeTimeout : Option ℕ
  sizeOfMessage : ℕ
  sizeOfBytes : ℕ
  sizeOfReceiver : ℕ

/-- The deadline a caller asks for. -/
inductive CallTimeout where
  | inherit
  | none
  | duration (timeout : ℕ)
  deriving DecidableEq

/-- The options of a call; `cancellation` says whether it carries a cancellation token. -/
structure CallOptions where
  cancellation : Bool
  timeout : CallTimeout
  deriving DecidableEq

/-- The deadline of a call. -/
def CallOptions.effectiveTimeout (options : CallOptions) (default : Option ℕ) : Option ℕ :=
  match options.timeout with
  | .inherit => default
  | .none => none
  | .duration timeout => some timeout

/-- What can interrupt the wait of a call. -/
inductive Interrupt where
  | cancelled
  | deadline
  deriving DecidableEq

/-- The error of an interrupt, if the call can be interrupted so. -/
def CallOptions.interrupted (options : CallOptions) (default : Option ℕ) :
    Interrupt → Option RuntimeError
  | .cancelled => if options.cancellation then some .cancelled else none
  | .deadline => (options.effectiveTimeout default).map .callTimeout

/-! ## Requests -/

/-- The two ways of making a call. -/
inductive Request (R : Type) where
  | classic (message : RpcMessage)
  | into (request : SegmentedRequest) (receiver : R)

/-- The transaction id, the segments to write and the reply sender of a request, unless it is
refused before admission. -/
def Request.prepare {R : Type} (cfg : Config) :
    Request R → Except RuntimeError (Xid × List Bytes × ResponseSender R)
  | .classic message => do
    let segments ← message.segments cfg.sizeOfMessage
    return (message.xid, segments, .buffered)
  | .into request receiver => do
    let (header, charge) ← request.prepare cfg.sizeOfBytes
    let _ ← sizeOr (checkedAdd charge cfg.sizeOfReceiver) "RPC receiver charge overflow"
    return (request.header.xid, header :: request.payload, .segmented ⟨receiver, 0⟩)

/-! ## The state of a call -/

/-- What follows the release of the writer: the result of the send, or the drop of the future. -/
inductive Release where
  | sent (result : Except RuntimeError Unit)
  | drop

/-- Where a call future is. -/
inductive Phase (R : Type) where
  | absent
  /-- Admitted, not yet polled. -/
  | admitted
  /-- Registration was refused. -/
  | refused (error : RuntimeError)
  /-- Dropped before it was polled. -/
  | discarded
  /-- Waiting for the writer lock. -/
  | queued
  /-- Holding the writer lock, before it looks at the connection. -/
  | locked
  /-- Writing its frame; `written` counts accepted bytes, `stopped` a soft stop. -/
  | writing (frame : Except RuntimeError FrameWriter) (written : ℕ) (stopped : Bool)
  /-- The write has its result. -/
  | wrote (result : Except RuntimeError Unit) (written : ℕ)
  /-- The frame guard is dropped. -/
  | guard (complete : Bool) (written : ℕ) (next : Release)
  /-- The frame guard looks whether the connection is closed. -/
  | retire (next : Release)
  /-- The writer lock is released. -/
  | unlock (next : Release)
  /-- Waiting for the reply or an interrupt. -/
  | waiting
  /-- Interrupted; waiting for the owner to come back. -/
  | awaiting
  /-- The outcome is known; the registration guard is dropped. -/
  | returning (reply : Reply R)
  | finished (reply : Reply R)
  /-- The future is dropped; the registration guard is dropped. -/
  | dropping
  | dropped
  /-- The owned receive target did not come back. -/
  | panicked

/-- The steps of stopping a registered call that are left. -/
inductive Stopping where
  /-- Record the error. -/
  | mark (error : RuntimeError)
  /-- Remove the registry entry and answer it. -/
  | remove (error : RuntimeError)

/-- A call: its request, where its future is, and what it shares with the reader. -/
structure Call (R : Type) where
  xid : Xid
  segments : List Bytes
  /-- The sender the call is registered with. -/
  sender : ResponseSender R
  options : CallOptions
  phase : Phase R
  stopping : Option Stopping
  control : CallControl
  /-- Every value sent into the channel of the call. -/
  sent : List (Reply R)
  /-- The sender was dropped without a value. -/
  senderGone : Bool

/-- A registry entry. -/
structure Pending (R : Type) where
  /-- The call whose control this entry holds. -/
  token : ℕ
  sender : Option (ResponseSender R)

/-- What a call sees of the shared state. -/
structure View (R : Type) where
  closed : Option RuntimeError
  lockFree : Bool
  writer : Bool
  /-- The registry entry under its transaction id. -/
  entry : Option (Pending R)

/-- What a step of a call does to the shared state. -/
inductive Effect where
  | none
  | register
  /-- Remove the registry entry of the call. -/
  | remove
  /-- Fail the connection. -/
  | fail (error : RuntimeError)
  | lock
  | unlock
  /-- The stream accepts bytes. -/
  | accept (chunk : Bytes)
  /-- Drop the writer and abort the reader. -/
  | retire

/-- What makes a call future go on. -/
inductive CallAction where
  /-- Its own next step. -/
  | step
  | lock
  | interrupt (interrupt : Interrupt)
  /-- It notices that the connection is closed. -/
  | noticeClosed
  | writeTimeout
  | write (result : WriteResult)
  | flush (result : Except IoError Unit)
  /-- It takes the value of its channel, or notices that the sender is gone. -/
  | receive
  | drop
  deriving DecidableEq

/-- A second call with a transaction id in flight. -/
def duplicateXidError : RuntimeError := .transport "duplicate in-flight RPC XID"

/-- A frame abandoned part-way. -/
def interruptedFrameError : RuntimeError := .transport "RPC frame write interrupted"

/-- Errors that leave a connection usable if no byte of the frame was written. -/
def RuntimeError.isSoft : RuntimeError → Bool
  | .cancelled | .callTimeout _ | .writeTimeout _ => true
  | _ => false

namespace Call

variable {R : Type}

/-- Go on to a phase. -/
def goto (call : Call R) (phase : Phase R) : Call R := { call with phase := phase }

/-- Stop the call with an error, then go on to a phase. -/
def stop (call : Call R) (error : RuntimeError) (phase : Phase R) : Call R :=
  { call with phase := phase, stopping := some (.mark error) }

/-- Send into the channel what the control leaves of a result. -/
def answer (call : Call R) (sender : ResponseSender R)
    (received : Except RuntimeError (RpcMessage × ℕ)) : Call R :=
  let (control, received) := call.control.finish received
  { call with control := control, sent := call.sent ++ [sender.reply received] }

/-- Registration: a closed connection and a duplicate transaction id are refused. -/
def register (call : Call R) (view : View R) : Call R × Effect :=
  match view.closed with
  | some error => (call.goto (.refused error), .none)
  | none =>
    if view.entry.isSome then (call.goto (.refused duplicateXidError), .none)
    else (call.goto .queued, .register)

/-- The second half of stopping: remove the entry, if it is still this call's, and answer it. -/
def remove (call : Call R) (view : View R) (id : ℕ) (error : RuntimeError) : Call R × Effect :=
  match view.entry with
  | some ⟨token, sender⟩ =>
    if token = id then
      match sender with
      | some sender => ({ call.answer sender (.error error) with stopping := none }, .remove)
      | none => ({ call with stopping := none }, .remove)
    else ({ call with stopping := none }, .none)
  | none => ({ call with stopping := none }, .none)

/-- With the lock held: a connection that is closed or has no writer ends the send. -/
def check (call : Call R) (view : View R) : Call R × Effect :=
  match view.closed with
  | some error => (call.stop error .waiting, .unlock)
  | none =>
    if view.writer then (call.goto (.writing (FrameWriter.new call.segments) 0 false), .none)
    else (call.stop .connectionClosed .waiting, .unlock)

/-- The stream answers a vectored write. -/
def write (call : Call R) (frame : FrameWriter) (written : ℕ) (stopped : Bool)
    (result : WriteResult) : Option (Call R × Effect) :=
  match frame.poll, result with
  | .await slices, .ok count =>
    if count ≤ slices.flatten.length then
      let phase := match frame.resume (.ok count) with
        | .ok frame => .writing (.ok frame) (written + count) stopped
        | .error error => .wrote (.error error) (written + count)
      some (call.goto phase, .accept (slices.flatten.take count))
    else none
  | .await _, .error error =>
    let phase := match frame.resume (.error error) with
      | .ok frame => .writing (.ok frame) written stopped
      | .error error => .wrote (.error error) written
    some (call.goto phase, .none)
  | _, _ => none

/-- The steps of a call that writes its frame. -/
def writeStep (cfg : Config) (call : Call R) (view : View R)
    (frame : Except RuntimeError FrameWriter) (written : ℕ) (stopped : Bool) :
    CallAction → Option (Call R × Effect)
  | .noticeClosed => view.closed.map fun error => (call.goto (.wrote (.error error) written), .none)
  | .writeTimeout =>
    cfg.writeTimeout.map fun duration =>
      (call.goto (.wrote (.error (.writeTimeout duration)) written), .none)
  | .interrupt interrupt =>
    if stopped then none
    else (call.options.interrupted cfg.defaultCallTimeout interrupt).map fun error =>
      (call.stop error
        (if written = 0 then .wrote (.error error) written else .writing frame written true), .none)
  | .write result =>
    match frame with
    | .ok frame => call.write frame written stopped result
    | .error _ => none
  | .flush result =>
    match frame with
    | .ok frame =>
      match frame.poll with
      | .done =>
        some (call.goto (.wrote (result.mapError fun error => .transport error.text) written),
          .none)
      | _ => none
    | .error _ => none
  | .step =>
    match frame with
    | .ok frame =>
      match frame.poll with
      | .failed error => some (call.goto (.wrote (.error error) written), .none)
      | _ => none
    | .error error => some (call.goto (.wrote (.error error) written), .none)
  | .drop => some (call.goto (.guard false written .drop), .none)
  | .lock | .receive => none

/-- The write has ended: a failed write fails the connection, unless it was stopped before its
first byte. -/
def settle (call : Call R) (result : Except RuntimeError Unit) (written : ℕ) : Call R × Effect :=
  match result with
  | .ok () => (call.goto (.guard true written (.sent result)), .none)
  | .error error =>
    (call.goto (.guard false written (.sent result)),
      if written = 0 ∧ error.isSoft then .none else .fail error)

/-- After the writer is released: wait for the reply, or stop. -/
def released (call : Call R) : Release → Call R
  | .sent (.ok ()) => call.goto .waiting
  | .sent (.error error) => call.stop error .waiting
  | .drop => call.stop .cancelled .dropping

/-- Take the value of the channel.  Without a sender a buffered call ends with the recorded error,
or with a closed connection. -/
def receive (call : Call R) : Option (Call R) :=
  match call.sent with
  | reply :: _ => some (call.stop .cancelled (.returning reply))
  | [] =>
    if call.senderGone then
      match call.sender with
      | .buffered =>
        some (call.stop .cancelled (.returning
          (.buffered (.error (call.control.error.getD .connectionClosed)))))
      | .segmented _ => some (call.stop .cancelled .panicked)
    else none

/-- The steps of a call that is not being stopped. -/
def advance (cfg : Config) (call : Call R) (view : View R) (action : CallAction) :
    Option (Call R × Effect) :=
  match call.phase, action with
  | .admitted, .step => some (call.register view)
  | .admitted, .drop => some (call.goto .discarded, .none)
  | .queued, .lock => if view.lockFree then some (call.goto .locked, .lock) else none
  | .queued, .interrupt interrupt =>
    (call.options.interrupted cfg.defaultCallTimeout interrupt).map fun error =>
      (call.stop error .waiting, .none)
  | .queued, .noticeClosed => view.closed.map fun error => (call.stop error .waiting, .none)
  | .queued, .writeTimeout =>
    cfg.writeTimeout.map fun duration => (call.stop (.writeTimeout duration) .waiting, .none)
  | .locked, .step => some (call.check view)
  | .writing frame written stopped, action => call.writeStep cfg view frame written stopped action
  | .wrote result written, .step => some (call.settle result written)
  | .guard complete written next, .step =>
    some (call.goto (.retire next),
      if complete = false ∧ written ≠ 0 then .fail interruptedFrameError else .none)
  | .retire next, .step =>
    some (call.goto (.unlock next), if view.closed.isSome then .retire else .none)
  | .unlock next, .step => some (call.released next, .unlock)
  | .waiting, .interrupt interrupt =>
    (call.options.interrupted cfg.defaultCallTimeout interrupt).map fun error =>
      (call.stop error .awaiting, .none)
  | .waiting, .receive | .awaiting, .receive => call.receive.map (·, .none)
  | .queued, .drop | .waiting, .drop | .awaiting, .drop =>
    some (call.stop .cancelled .dropping, .none)
  | .returning reply, .step => some (call.goto (.finished reply), .none)
  | .dropping, .step => some (call.goto .dropped, .none)
  | _, _ => none

/-- One step of a call future. -/
def step (cfg : Config) (call : Call R) (view : View R) (id : ℕ) (action : CallAction) :
    Option (Call R × Effect) :=
  match call.stopping with
  | none => call.advance cfg view action
  | some (.mark error) =>
    if action = .step then
      some ({ call with control := call.control.stop error, stopping := some (.remove error) },
        .none)
    else none
  | some (.remove error) => if action = .step then some (call.remove view id error) else none

end Call

end OncRpc
