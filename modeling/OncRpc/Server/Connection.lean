import OncRpc.Foundation.Transition
import OncRpc.Record.Agreement
import OncRpc.Record.Fragment
import OncRpc.Server.Dispatch

/-!
# A connection of a server

A loop reads a stream into a buffer and takes messages out of it.  Each message goes to a worker
task of its own, which computes the reply, waits for the lock of the writer, and writes the reply
under it.  The loop goes on meanwhile, so any number of workers run beside each other and beside the
loop; `ServerConn.step` is one step of one of them.

The stream takes a buffer in as many pieces as it likes.  A loop that answers certain messages
itself is covered too: it locks the writer and writes like a worker, and waits for that to be done.
-/

namespace OncRpc

open Foundation

variable {Ω : Type}

/-! ## What a connection is set up with -/

/-- The errors that end the loop of a connection. -/
inductive ServerTransportError where
  | io (text : String)
  | wire (error : WireError)
  | runtime (error : RuntimeError)
  deriving DecidableEq

/-- Wire errors keep their own kind. -/
def mapRuntimeError : RuntimeError → ServerTransportError
  | .wire error => .wire error
  | other => .runtime other

/-- What a loop serves, and what it does beside dispatching. -/
structure Service (Ω : Type) where
  server : Server Ω
  peerAddr : Option SocketAddr
  /-- The reply the loop itself gives to a message. -/
  intercept : RpcMessage → Option RpcMessage
  /-- How the loop ends when a message cannot be decoded or its own reply not be written. -/
  fails : RuntimeError → ServerTransportError
  /-- How the loop ends when the stream fails. -/
  readFails : IoError → Except ServerTransportError Unit

/-- The loops `serve_sync_connection` and `serve_async_connection` over plain streams. -/
def Service.tcp (server : Server Ω) (peerAddr : SocketAddr) : Service Ω where
  server := server
  peerAddr := some peerAddr
  intercept := fun _ => none
  fails := mapRuntimeError
  readFails := fun error => .error (.io error.text)

/-! ## The parties -/

/-- Where the loop is. -/
inductive LoopPhase where
  /-- About to look for a message in the buffer. -/
  | decoding (buffer : Bytes)
  /-- Waiting for a worker permit. -/
  | spawning (message : RpcMessage) (buffer : Bytes)
  /-- Waiting until its own reply is written. -/
  | replying (id : ℕ) (buffer : Bytes)
  /-- Waiting for the stream. -/
  | reading (buffer : Bytes)
  | ended (result : Except ServerTransportError Unit)

/-- Where a worker is. -/
inductive WorkerPhase where
  | handling
  /-- Waiting for the writer. -/
  | locking (reply : RpcMessage)
  /-- Writing, with the buffers it has left. -/
  | writing (reply : RpcMessage) (left : List Bytes)
  /-- About to release the writer, with the reply if it was written whole. -/
  | releasing (result : Except RuntimeError RpcMessage)
  /-- Over; without a result if the message was refused. -/
  | done (result : Option (Except RuntimeError RpcMessage))

/-- A worker and the message it serves. -/
structure Worker where
  message : RpcMessage
  phase : WorkerPhase

/-- What makes a worker go on. -/
inductive WorkerAction (Ω : Type) where
  /-- The dispatcher returns. -/
  | handle (world : Ω)
  | lock
  /-- The stream accepts bytes of the buffer being written. -/
  | accept (count : ℕ)
  /-- The buffer being written is used up. -/
  | next
  | flush
  | fail (error : IoError)
  | release

/-- The state of a connection. -/
structure ServerConn where
  loop : LoopPhase
  workers : List Worker
  /-- The worker that holds the writer. -/
  lock : Option ℕ
  /-- The bytes read from the stream. -/
  input : Bytes
  /-- The bytes the stream accepted. -/
  output : Bytes

/-- What can happen on a connection. -/
inductive ServerAction (Ω : Type) where
  | decode
  /-- A worker permit is granted. -/
  | spawn
  /-- The loop's own reply is written. -/
  | resume
  | read (result : ReadResult IoError)
  | worker (id : ℕ) (action : WorkerAction Ω)

namespace ServerConn

/-- A connection before its first read, with what its loop was handed. -/
def initial (buffer : Bytes) : ServerConn where
  loop := .decoding buffer
  workers := []
  lock := none
  input := []
  output := []

/-! ## The loop -/

/-- Take a message out of the buffer. -/
def decode (service : Service Ω) (s : ServerConn) : Option ServerConn :=
  match s.loop with
  | .decoding buffer =>
    match tryDecodeMessageFromBuffer buffer with
    | (.error error, _) => some { s with loop := .ended (.error (service.fails error)) }
    | (.ok none, buffer) => some { s with loop := .reading buffer }
    | (.ok (some message), buffer) =>
      match service.intercept message with
      | some reply =>
        some { s with
          workers := s.workers ++ [⟨message, .locking reply⟩]
          loop := .replying s.workers.length buffer }
      | none => some { s with loop := .spawning message buffer }
  | _ => none

/-- Start a worker. -/
def spawn (s : ServerConn) : Option ServerConn :=
  match s.loop with
  | .spawning message buffer =>
    some { s with workers := s.workers ++ [⟨message, .handling⟩], loop := .decoding buffer }
  | _ => none

/-- Go on after a reply of the loop's own, unless it could not be written. -/
def resume (service : Service Ω) (s : ServerConn) : Option ServerConn :=
  match s.loop with
  | .replying id buffer =>
    match (s.workers[id]?).map Worker.phase with
    | some (.done (some (.ok _))) => some { s with loop := .decoding buffer }
    | some (.done (some (.error error))) =>
      some { s with loop := .ended (.error (service.fails error)) }
    | _ => none
  | _ => none

/-- The stream answers a read. -/
def read (service : Service Ω) (s : ServerConn) (result : ReadResult IoError) :
    Option ServerConn :=
  match s.loop, result with
  | .reading buffer, .bytes chunk =>
    if chunk = [] then none
    else some { s with loop := .decoding (buffer ++ chunk), input := s.input ++ chunk }
  | .reading _, .eof => some { s with loop := .ended (.ok ()) }
  | .reading _, .error error => some { s with loop := .ended (service.readFails error) }
  | _, _ => none

/-! ## Workers -/

/-- What a step of a worker does to the writer. -/
inductive WriterEffect where
  | none
  | lock
  | accept (chunk : Bytes)
  | unlock

/-- One step of a worker. -/
def workerPhase (service : Service Ω) (lockFree : Bool) (message : RpcMessage) :
    WorkerPhase → WorkerAction Ω → Option (WorkerPhase × WriterEffect)
  | .handling, .handle world =>
    match service.server.handleMessageWithPeerAddr world message service.peerAddr with
    | .ok reply => some (.locking reply, .none)
    | .error _ => some (.done none, .none)
  | .locking reply, .lock =>
    if lockFree then
      match writeRpcMessage reply with
      | .ok left => some (.writing reply left, .lock)
      | .error error => some (.releasing (.error error), .lock)
    else none
  | .writing reply (buffer :: left), .accept count =>
    if 0 < count ∧ count ≤ buffer.length then
      some (.writing reply (buffer.drop count :: left), .accept (buffer.take count))
    else none
  | .writing reply ([] :: left), .next => some (.writing reply left, .none)
  | .writing reply [], .flush => some (.releasing (.ok reply), .none)
  | .writing _ _, .fail error => some (.releasing (.error (.transport error.text)), .none)
  | .releasing result, .release => some (.done (some result), .unlock)
  | _, _ => none

/-- The writer after a step of a worker. -/
def apply (s : ServerConn) (id : ℕ) : WriterEffect → ServerConn
  | .none => s
  | .lock => { s with lock := some id }
  | .accept chunk => { s with output := s.output ++ chunk }
  | .unlock => { s with lock := none }

/-- One step of a worker of the connection. -/
def workerStep (service : Service Ω) (s : ServerConn) (id : ℕ) (action : WorkerAction Ω) :
    Option ServerConn :=
  (s.workers[id]?).bind fun worker =>
    (workerPhase service s.lock.isNone worker.message worker.phase action).map
      fun (phase, effect) =>
        { s.apply id effect with workers := s.workers.set id { worker with phase := phase } }

/-- One step of a connection. -/
def step (service : Service Ω) (s : ServerConn) : ServerAction Ω → Option ServerConn
  | .decode => s.decode service
  | .spawn => s.spawn
  | .resume => s.resume service
  | .read result => s.read service result
  | .worker id action => s.workerStep service id action

end ServerConn

end OncRpc
