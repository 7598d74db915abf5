import OncRpc.Foundation.Transition
import OncRpc.Owned.Call
import Mathlib.Data.List.AList

/-!
# An owned connection

One stream is shared by any number of calls, by one reader task that hands replies to the calls
they answer, and by whoever closes the connection.  `Conn` is the state these parties share together
with the state of each of them; `Conn.step` is one step of one party, and a run of the connection is
any interleaving of such steps.

What other tasks can observe in between is kept apart: the critical section of a failing connection
and each turn of the loop that answers the calls it took, the reader's lookup, its reads, its
terminal decision and its cleanup, the first and the second half of stopping a call, the drop of a
frame guard and the release of the lock.

The reader makes its exit guard when it is polled for the first time.  A reader that is aborted
before leaves nothing behind that would fail the connection or drop the writer.
-/

namespace OncRpc

open Foundation

variable {R : Type}

/-! ## The parties -/

/-- A task that can fail the connection. -/
inductive Party where
  | call (id : ℕ)
  | reader
  | closer (id : ℕ)
  deriving DecidableEq

/-- The registry: the calls in flight by transaction id. -/
abbrev Registry (R : Type) := AList fun _ : Xid => Pending R

/-- The loop of a failing connection over the entries it took. -/
structure FailJob (R : Type) where
  owner : Party
  error : RuntimeError
  remaining : Registry R

/-- Where the reader task is. -/
inductive ReaderPhase (R : Type) where
  /-- Reading the transaction id of a record. -/
  | xid (cursor : RecordReader) (got : Bytes)
  /-- About to look the transaction id up. -/
  | lookup (cursor : RecordReader) (xid : Bytes)
  /-- Receiving the record for a call. -/
  | receiving (token : ℕ) (xid : Xid) (receive : Receive R)
  /-- Reading the rest of a record nobody takes. -/
  | draining (token : Option ℕ) (xid : Xid) (cursor : RecordReader)
  /-- About to remove the entry of the call and return. -/
  | cleanup (token : Option ℕ) (xid : Xid) (result : Except RuntimeError Unit)
  /-- The record failed; the connection is to be retired. -/
  | failing (error : RuntimeError)
  /-- Waiting for the lock to drop the writer. -/
  | retiring
  /-- Dropping the exit guard. -/
  | exiting
  /-- The exit guard drops the writer, if the lock is free. -/
  | exitTake
  | exited

/-- Where a `close` call is. -/
inductive Closing where
  | abort
  | take
  | done
  deriving DecidableEq

/-- The state of a connection. -/
structure Conn (R : Type) where
  closed : Option RuntimeError
  pending : Registry R
  job : Option (FailJob R)
  /-- The stream can still be written to. -/
  writer : Bool
  /-- The call that holds the writer lock. -/
  lock : Option ℕ
  /-- The bytes the stream accepted, each piece with the call that wrote it. -/
  writes : List (ℕ × Bytes)
  calls : ℕ → Call R
  created : ℕ
  closers : List Closing
  /-- The reader task is to be aborted. -/
  abort : Bool
  /-- No owner of the connection is left. -/
  released : Bool
  reader : ReaderPhase R
  /-- The reader task has been polled, and has its exit guard since. -/
  polled : Bool
  /-- The bytes the reader took from the stream. -/
  consumed : Bytes

/-- What can happen on a connection. -/
inductive Action (R : Type) where
  | admitCall (request : Request R) (options : CallOptions)
  | call (id : ℕ) (action : CallAction)
  /-- The reader task is polled for the first time. -/
  | poll
  /-- The stream answers the read the reader awaits. -/
  | read (result : ReadResult IoError)
  /-- The reader's own next step. -/
  | turn
  /-- The reader notices that the call it receives for was stopped. -/
  | noticeStop
  /-- The reader task is dropped at an await. -/
  | aborted
  /-- The failing connection answers the call with a transaction id. -/
  | failNext (xid : Xid)
  | failDone
  | close
  | closer (id : ℕ)
  /-- The last owner of the connection is dropped. -/
  | release

/-! ## The initial state -/

/-- A call that does not exist yet. -/
def Call.absent : Call R where
  xid := 0
  segments := []
  sender := .buffered
  options := ⟨false, .none⟩
  phase := .absent
  stopping := none
  control := .fresh
  sent := []
  senderGone := false

/-- The reader at the start of a record. -/
def ReaderPhase.nextRecord (cfg : Config) : ReaderPhase R :=
  match RecordReader.new cfg.limits with
  | .ok cursor => .xid cursor []
  | .error error => .failing error

/-- With valid limits the reader starts on the transaction id. -/
theorem ReaderPhase.nextRecord_eq (cfg : Config) :
    (ReaderPhase.nextRecord cfg : ReaderPhase R) = .xid (.start cfg.limits) [] := by
  have hvalid := (RecordLimits.validate_eq_ok_iff cfg.limits).mpr cfg.valid
  simp only [nextRecord, RecordReader.new, hvalid, bind, Except.bind, pure, Except.pure]

/-- A new connection. -/
def Conn.initial (cfg : Config) : Conn R where
  closed := none
  pending := ∅
  job := none
  writer := true
  lock := none
  writes := []
  calls := fun _ => .absent
  created := 0
  closers := []
  abort := false
  released := false
  reader := .nextRecord cfg
  polled := false
  consumed := []

namespace Conn

variable [ReplyReceiver R] (s : Conn R)

/-! ## Failing -/

/-- The critical section of failing: the first error stays, and the entries are taken. -/
def fail (party : Party) (error : RuntimeError) : Conn R :=
  if s.closed.isSome then s
  else { s with closed := some error, job := some ⟨party, error, s.pending⟩, pending := ∅ }

/-- The party is inside the loop of a failing connection. -/
def busy (party : Party) : Bool :=
  match s.job with
  | some job => job.owner = party
  | none => false

/-- Stop a call whose entry was taken, and answer it if the entry still had its sender. -/
def failCall (call : Call R) (error : RuntimeError) (sender : Option (ResponseSender R)) :
    Call R :=
  let call := { call with control := call.control.stop error }
  match sender with
  | some sender => call.answer sender (.error error)
  | none => call

/-- One turn of the loop over the entries taken. -/
def failNext (xid : Xid) : Option (Conn R) :=
  s.job.bind fun job => (job.remaining.lookup xid).map fun entry =>
    { s with
      calls := Function.update s.calls entry.token
        (failCall (s.calls entry.token) job.error entry.sender)
      job := some { job with remaining := job.remaining.erase xid } }

/-- The loop ends. -/
def failDone : Option (Conn R) :=
  s.job.bind fun job => if job.remaining.entries.isEmpty then some { s with job := none } else none

/-! ## Calls -/

/-- A call is admitted. -/
def admitCall (cfg : Config) (request : Request R) (options : CallOptions) : Option (Conn R) :=
  if s.released then none
  else match request.prepare cfg with
  | .error _ => none
  | .ok (xid, segments, sender) =>
    some { s with
      calls := Function.update s.calls s.created
        { Call.absent with
          xid := xid, segments := segments, sender := sender, options := options,
          phase := .admitted }
      created := s.created + 1 }

/-- What a call sees. -/
def view (id : ℕ) : View R where
  closed := s.closed
  lockFree := s.lock.isNone
  writer := s.writer
  entry := s.pending.lookup (s.calls id).xid

/-- What a step of a call does to the shared state. -/
def apply (id : ℕ) : Effect → Conn R
  | .none => s
  | .register =>
    { s with pending := s.pending.insert (s.calls id).xid ⟨id, some (s.calls id).sender⟩ }
  | .remove => { s with pending := s.pending.erase (s.calls id).xid }
  | .fail error => s.fail (.call id) error
  | .lock => { s with lock := some id }
  | .unlock => { s with lock := none }
  | .accept chunk => { s with writes := s.writes ++ [(id, chunk)] }
  | .retire => { s with writer := false, abort := true }

/-- One step of a call. -/
def callStep (cfg : Config) (id : ℕ) (action : CallAction) : Option (Conn R) :=
  if s.busy (.call id) then none
  else ((s.calls id).step cfg (s.view id) id action).map fun (call, effect) =>
    { s.apply id effect with calls := Function.update s.calls id call }

/-! ## The reader -/

/-- The answer fits the read it answers. -/
def answers (count : ℕ) : ReadResult IoError → Bool
  | .bytes chunk => !chunk.isEmpty && chunk.length ≤ count
  | .eof | .error _ => true

/-- The bytes an answer of the stream brings. -/
def taken : ReadResult IoError → Bytes
  | .bytes chunk => chunk
  | .eof | .error _ => []

/-- The reader after a read of the transaction id, of which it had got a part. -/
def xidPhase (got : Bytes) : RecordReader × Filled → ReaderPhase R
  | (cursor, .more) => .xid cursor got
  | (_, .failed error) => .failing error
  | (cursor, .payload chunk) =>
    if 4 ≤ (got ++ chunk).length then .lookup cursor (got ++ chunk) else .xid cursor (got ++ chunk)

/-- The reader after a read of a record that is drained. -/
def drainPhase (token : Option ℕ) (xid : Xid) : RecordReader × Filled → ReaderPhase R
  | (_, .failed error) => .cleanup token xid (.error error)
  | (cursor, .more) | (cursor, .payload _) => .draining token xid cursor

/-- The reader after an answer of the stream. -/
def readPhase (result : ReadResult IoError) : ReaderPhase R → Option (ReaderPhase R)
  | .xid cursor got =>
    match cursor.poll (4 - got.length) with
    | .await count =>
      if answers count result then some (xidPhase got (cursor.resume result)) else none
    | _ => none
  | .receiving token xid receive =>
    match receive.poll with
    | .await count =>
      if answers count result then some (.receiving token xid (receive.resume result)) else none
    | .ready _ => none
  | .draining token xid cursor =>
    match cursor.poll 4096 with
    | .await count =>
      if answers count result then some (drainPhase token xid (cursor.resume result)) else none
    | _ => none
  | _ => none

/-- The reader task is polled for the first time; an aborted task is not. -/
def poll : Option (Conn R) :=
  if s.abort || s.polled then none else some { s with polled := true }

/-- The stream answers the reader, which is polled for it. -/
def read (result : ReadResult IoError) : Option (Conn R) :=
  if s.busy .reader || (s.abort && !s.polled) then none
  else (readPhase result s.reader).map fun phase =>
    { s with reader := phase, polled := true, consumed := s.consumed ++ taken result }

/-- Take the sender of the call a transaction id names, and receive for it. -/
def lookup (cursor : RecordReader) (xid : Bytes) : Conn R :=
  let key := wordOf xid
  match s.pending.lookup key with
  | some ⟨token, some sender⟩ =>
    { s with
      pending := s.pending.insert key ⟨token, none⟩
      reader := .receiving token key (.start cursor xid sender) }
  | some ⟨token, none⟩ => { s with reader := .draining (some token) key cursor }
  | none => { s with reader := .draining none key cursor }

/-- The terminal decision on a received record: the call is answered; if it had been stopped, the
rest of the record is drained. -/
def decide (token : ℕ) (xid : Xid) (receive : Receive R)
    (received : Except RuntimeError (RpcMessage × ℕ)) : Conn R :=
  let call := (s.calls token).answer receive.stage.sender received
  let (control, received) := (s.calls token).control.finish received
  { s with
    calls := Function.update s.calls token call
    reader :=
      if control.error.isSome then .draining (some token) xid receive.cursor
      else .cleanup (some token) xid (received.map fun _ => ()) }

/-- Remove the entry of the call the record was for, if it is still there. -/
def cleanup (token : Option ℕ) (xid : Xid) : Conn R :=
  match token, s.pending.lookup xid with
  | some token, some entry =>
    if !s.released ∧ entry.token = token then { s with pending := s.pending.erase xid } else s
  | _, _ => s

/-- The reader drops the sender it holds: a segmented target answers its call, a buffered sender is
gone. -/
def dropSender (token : ℕ) : ResponseSender R → Conn R
  | .buffered =>
    { s with calls := Function.update s.calls token { s.calls token with senderGone := true } }
  | .segmented target =>
    { s with
      calls := Function.update s.calls token
        ((s.calls token).answer (.segmented target) (.error .connectionClosed)) }

/-- The reader's own next step. -/
def turn (cfg : Config) : Option (Conn R) :=
  if s.busy .reader then none
  else match s.reader with
  | .xid cursor got =>
    if !s.polled then none
    else match cursor.poll (4 - got.length) with
    | .done => some { s with reader := .failing (recordEof (4 - got.length)) }
    | .failed error => some { s with reader := .failing error }
    | .await _ => none
  | .lookup cursor xid =>
    if s.released then some { s with reader := .failing .connectionClosed }
    else some (s.lookup cursor xid)
  | .receiving token xid receive =>
    match receive.poll with
    | .ready (some received) => some (s.decide token xid receive received)
    | .ready none => some { s.dropSender token receive.stage.sender with reader := .exiting }
    | .await _ => none
  | .draining token xid cursor =>
    match cursor.poll 4096 with
    | .done => some { s with reader := .cleanup token xid (.ok ()) }
    | .failed error => some { s with reader := .cleanup token xid (.error error) }
    | .await _ => none
  | .cleanup token xid result =>
    some { s.cleanup token xid with
      reader := match result with
        | .ok () => .nextRecord cfg
        | .error error => .failing error }
  | .failing error =>
    if s.released then some { s with reader := .exiting }
    else some { s.fail .reader error with reader := .retiring }
  | .retiring =>
    if s.lock.isNone then some { s with writer := false, reader := .exiting } else none
  | .exiting =>
    if s.released then some { s with reader := .exited }
    else some { s.fail .reader .connectionClosed with reader := .exitTake }
  | .exitTake => some { s with writer := s.writer && s.lock.isSome, reader := .exited }
  | .exited => none

/-- The reader notices that the call it receives for was stopped. -/
def noticeStop : Option (Conn R) :=
  match s.reader with
  | .receiving token xid receive =>
    match receive.poll with
    | .await _ =>
      (s.calls token).control.error.map fun error => s.decide token xid receive (.error error)
    | .ready _ => none
  | _ => none

/-- The reader task is dropped while it awaits the stream or the writer lock, or before it is polled
at all. -/
def aborted : Option (Conn R) :=
  if s.abort = false ∨ s.busy .reader then none
  else match s.reader with
  | .xid cursor got =>
    match cursor.poll (4 - got.length) with
    -- no exit guard before the first poll
    | .await _ => some { s with reader := if s.polled then .exiting else .exited }
    | _ => none
  | .receiving token _ receive =>
    match receive.poll with
    | .await _ => some { s.dropSender token receive.stage.sender with reader := .exiting }
    | .ready _ => none
  | .draining _ _ cursor =>
    match cursor.poll 4096 with
    | .await _ => some { s with reader := .exiting }
    | _ => none
  | .retiring => some { s with reader := .exiting }
  | _ => none

/-! ## Closing -/

/-- Somebody calls `close`. -/
def close : Option (Conn R) :=
  if s.released then none
  else some
    { s.fail (.closer s.closers.length) .connectionClosed with closers := s.closers ++ [.abort] }

/-- A `close` call goes on: it aborts the reader, then drops the writer if the lock is free. -/
def closerStep (id : ℕ) : Option (Conn R) :=
  if s.busy (.closer id) then none
  else match s.closers[id]? with
  | some .abort => some { s with abort := true, closers := s.closers.set id .take }
  | some .take =>
    some { s with writer := s.writer && s.lock.isSome, closers := s.closers.set id .done }
  | _ => none

end Conn

/-- The future holds no reference to the connection any more. -/
def Phase.isOver : Phase R → Bool
  | .refused _ | .discarded | .finished _ | .dropped | .panicked => true
  | _ => false

/-- The reader holds a strong reference to the connection. -/
def ReaderPhase.isStrong : ReaderPhase R → Bool
  | .retiring | .exitTake => true
  | _ => false

namespace Conn

variable [ReplyReceiver R] (s : Conn R)

/-- No call, no `close` and no step of the reader keeps the connection alive. -/
def unowned : Bool :=
  (List.range s.created).all (fun id =>
    (s.calls id).phase.isOver && (s.calls id).stopping.isNone && !s.busy (.call id)) &&
  s.closers.all (· == .done) && !s.reader.isStrong && !s.busy .reader

/-- The last owner is dropped: the reader is aborted. -/
def release : Option (Conn R) :=
  if s.released then none
  else if s.unowned then some { s with released := true, abort := true } else none

/-- One step of a connection. -/
def step (cfg : Config) (s : Conn R) : Action R → Option (Conn R)
  | .admitCall request options => s.admitCall cfg request options
  | .call id action => s.callStep cfg id action
  | .poll => s.poll
  | .read result => s.read result
  | .turn => s.turn cfg
  | .noticeStop => s.noticeStop
  | .aborted => s.aborted
  | .failNext xid => s.failNext xid
  | .failDone => s.failDone
  | .close => s.close
  | .closer id => s.closerStep id
  | .release => s.release

/-- The states a connection reaches by any steps. -/
def Reachable (cfg : Config) (s : Conn R) : Prop :=
  Runs (step cfg) (fun _ _ => True) (initial cfg) s

/-- Executing actions on a new connection is a run. -/
theorem exists_trace {cfg : Config} {actions : List (Action R)} {α : Type} {view : Conn R → α}
    {seen : α}
    (h : (runList (guarded (fun _ _ => true) (step cfg)) (initial cfg) actions).map view =
      some seen) :
    ∃ s, Trace (step cfg) (fun _ _ => True) (initial cfg) actions s ∧ view s = seen :=
  Trace.exists_of_runList (fun _ _ _ => trivial) h

/-- Executing actions on a new connection ends in a reachable state. -/
theorem exists_reachable {cfg : Config} {actions : List (Action R)} {α : Type} {view : Conn R → α}
    {seen : α}
    (h : (runList (guarded (fun _ _ => true) (step cfg)) (initial cfg) actions).map view =
      some seen) : ∃ s, Reachable cfg s ∧ view s = seen := by
  obtain ⟨s, htrace, hview⟩ := exists_trace h
  exact ⟨s, htrace.runs, hview⟩

end Conn

/-! ## A small connection -/

/-- A connection with the default limits and no timeouts. -/
def Config.plain : Config where
  limits := .default
  valid := ⟨by decide, by decide⟩
  defaultCallTimeout := none
  writeTimeout := none
  sizeOfMessage := 0
  sizeOfBytes := 0
  sizeOfReceiver := 0

/-- A call without arguments. -/
def RpcMessage.nullCall (xid : Xid) : RpcMessage :=
  ⟨xid, .call ⟨2, ⟨3, 1⟩, 0, .none, .none, []⟩⟩

/-- A reply without results. -/
def RpcMessage.nullReply (xid : Xid) : RpcMessage :=
  ⟨xid, .reply (.accepted ⟨.none, .success []⟩)⟩

namespace Conn

/-- The steps of a call that writes a frame of `length` bytes and waits for its reply. -/
def sendSteps (id length : ℕ) : List (Action R) :=
  [.call id .step, .call id .lock, .call id .step, .call id (.write (.ok length)),
    .call id (.flush (.ok ())), .call id .step, .call id .step, .call id .step, .call id .step]

/-- The steps of a call that takes its outcome. -/
def takeSteps (id : ℕ) : List (Action R) :=
  [.call id .receive, .call id .step, .call id .step, .call id .step]

/-- The reads of a reply without results to a call with a small transaction id. -/
def replyReads (xid : UInt8) : List (Action R) :=
  [.read (.bytes [128, 0, 0, 24]), .read (.bytes [0, 0, 0, xid]), .turn,
    .read (.bytes [0, 0, 0, 1, 0, 0, 0, 0, 0, 0, 0, 0, 0, 0, 0, 0, 0, 0, 0, 0]), .turn]

end Conn

end OncRpc
